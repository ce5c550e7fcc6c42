import ScriptScope.Json
import ScriptScope.Text.Hex

/-!
# ScriptScope.Json.Token

The tokens of a JSON document, read one character at a time.

`Scan` says where the reading stands: between two tokens, inside a word, a number, or a string.
`Scan.step` takes one character and gives the tokens it completes. A number is completed by the
first character behind it, which is then read as if it stood between two tokens.

* `Escape`, `StringPart`: the escapes of a string. Two escaped surrogate halves in a row make one
  character; half a pair makes the whole literal denote no text.
-/

namespace ScriptScope
namespace Json

inductive Token where
  | beginArray
  | endArray
  | beginObject
  | endObject
  | comma
  | colon
  | scalar (value : Scalar)
deriving DecidableEq, Repr

/-- A piece of a string literal: a character, or an escaped number of sixteen bits. -/
inductive StringPart where
  | char (c : Char)
  | code (n : Nat)
deriving DecidableEq, Repr

/-- Whether a number is the first half of a surrogate pair. -/
def isHighHalf (n : Nat) : Bool := 0xD800 ≤ n && n < 0xDC00

/-- Whether a number is the second half of a surrogate pair. -/
def isLowHalf (n : Nat) : Bool := 0xDC00 ≤ n && n < 0xE000

/-- The characters that the parts of a literal make, if every surrogate half has its partner. -/
def charsOfParts : List StringPart → Option (List Char)
  | [] => some []
  | .char c :: rest => (charsOfParts rest).map (c :: ·)
  | .code high :: .code low :: rest =>
    if isHighHalf high then
      if isLowHalf low then
        (charsOfParts rest).map
          (Char.ofNat (0x10000 + (high - 0xD800) * 0x400 + (low - 0xDC00)) :: ·)
      else none
    else if isLowHalf high then none
    else (charsOfParts (.code low :: rest)).map (Char.ofNat high :: ·)
  | .code n :: rest =>
    if isHighHalf n || isLowHalf n then none
    else (charsOfParts rest).map (Char.ofNat n :: ·)

/-- Where the reading of a string stands with respect to escapes. -/
inductive Escape where
  /-- Outside of an escape. -/
  | outside
  /-- Behind the backslash. -/
  | begun
  /-- Inside a numbered escape, with so many digits to come. -/
  | numbered (owed : Nat) (value : Nat)
deriving DecidableEq, Repr

/-- Where the reading of a number stands. -/
inductive NumberPart where
  | minus
  | zero
  | whole
  | point
  | fraction
  | exponent
  | exponentSign
  | power
deriving DecidableEq, Repr

/-- The part of a number that a character continues to. -/
def NumberPart.next? (part : NumberPart) (c : Char) : Option NumberPart :=
  match part with
  | .minus => if c = '0' then some .zero else if c.isDigit then some .whole else none
  | .zero => if c = '.' then some .point else if c = 'e' ∨ c = 'E' then some .exponent else none
  | .whole =>
    if c.isDigit then some .whole
    else if c = '.' then some .point
    else if c = 'e' ∨ c = 'E' then some .exponent else none
  | .point => if c.isDigit then some .fraction else none
  | .fraction =>
    if c.isDigit then some .fraction
    else if c = 'e' ∨ c = 'E' then some .exponent else none
  | .exponent =>
    if c = '+' ∨ c = '-' then some .exponentSign
    else if c.isDigit then some .power else none
  | .exponentSign => if c.isDigit then some .power else none
  | .power => if c.isDigit then some .power else none

/-- Whether a number can end here. -/
def NumberPart.isComplete : NumberPart → Bool
  | .zero | .whole | .fraction | .power => true
  | .minus | .point | .exponent | .exponentSign => false

/-- The value of a spelled number that ends in the given part. -/
def scalarOfNumber (part : NumberPart) (literal : List Char) : Scalar :=
  match part, literal with
  | .zero, ['0'] => .integer 0
  | .whole, '-' :: digits => .integer (-(Decimal.value digits : Int))
  | .whole, digits => .integer (Decimal.value digits)
  | _, _ => .real (String.ofList literal)

/-- Where the reading of a document stands. -/
inductive Scan where
  /-- Between two tokens. -/
  | between
  /-- Inside a word, with the characters to come. -/
  | word (rest : List Char) (value : Scalar)
  /-- Inside a number; the characters so far are in reverse. -/
  | number (part : NumberPart) (literal : List Char)
  /-- Inside a string; the parts so far are in reverse. -/
  | string (escape : Escape) (parts : List StringPart)
deriving DecidableEq, Repr

/-- The blanks of a document. -/
def isSpace (c : Char) : Bool :=
  c = ' ' || c = '\t' || c = '\n' || c = '\r'

/-- Reads a character between two tokens. -/
def Scan.begin (c : Char) : Option (List Token × Scan) :=
  if isSpace c then some ([], .between)
  else if c = '[' then some ([.beginArray], .between)
  else if c = ']' then some ([.endArray], .between)
  else if c = '\x7b' then some ([.beginObject], .between)
  else if c = '\x7d' then some ([.endObject], .between)
  else if c = ',' then some ([.comma], .between)
  else if c = ':' then some ([.colon], .between)
  else if c = '\x22' then some ([], .string .outside [])
  else if c = 'n' then some ([], .word ['u', 'l', 'l'] .null)
  else if c = 't' then some ([], .word ['r', 'u', 'e'] (.bool true))
  else if c = 'f' then some ([], .word ['a', 'l', 's', 'e'] (.bool false))
  else if c = '-' then some ([], .number .minus ['-'])
  else (NumberPart.next? .minus c).map fun part => ([], .number part [c])

/-- The character that a short escape stands for. -/
def shortEscape? (c : Char) : Option Char :=
  if c = '\x22' ∨ c = '\\' ∨ c = '/' then some c
  else if c = 'b' then some '\x08'
  else if c = 'f' then some '\x0c'
  else if c = 'n' then some '\n'
  else if c = 'r' then some '\r'
  else if c = 't' then some '\t'
  else none

/-- Reads a character inside a string. -/
def Scan.stepString (escape : Escape) (parts : List StringPart) (c : Char) :
    Option (List Token × Scan) :=
  match escape with
  | .outside =>
    if c = '\x22' then
      some ([.scalar (.text ((charsOfParts parts.reverse).map String.ofList))], .between)
    else if c = '\\' then some ([], .string .begun parts)
    else if c.toNat < 0x20 then none
    else some ([], .string .outside (.char c :: parts))
  | .begun =>
    if c = 'u' then some ([], .string (.numbered 4 0) parts)
    else (shortEscape? c).map fun d => ([], .string .outside (.char d :: parts))
  | .numbered owed value =>
    (Hex.digitValue? c).map fun d =>
      let value := 16 * value + d
      if owed ≤ 1 then ([], .string .outside (.code value :: parts))
      else ([], .string (.numbered (owed - 1) value) parts)

/-- Reads a character and gives the tokens it completes. -/
def Scan.step (scan : Scan) (c : Char) : Option (List Token × Scan) :=
  match scan with
  | .between => begin c
  | .word rest value =>
    match rest with
    | [] => none
    | [last] => if c = last then some ([.scalar value], .between) else none
    | d :: more => if c = d then some ([], .word more value) else none
  | .number part literal =>
    match part.next? c with
    | some part => some ([], .number part (c :: literal))
    | none =>
      if part.isComplete then
        (begin c).map fun (tokens, scan) =>
          (.scalar (scalarOfNumber part literal.reverse) :: tokens, scan)
      else none
  | .string escape parts => stepString escape parts c

/-- The tokens that the end of the document completes. -/
def Scan.finish : Scan → Option (List Token)
  | .between => some []
  | .number part literal =>
    if part.isComplete then some [.scalar (scalarOfNumber part literal.reverse)] else none
  | .word _ _ | .string _ _ => none

end Json
end ScriptScope

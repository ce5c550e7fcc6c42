import ScriptScope.Text.Hex
import ScriptScope.Toml

/-!
# ScriptScope.Toml.Text

The four kinds of strings. A basic string has escapes, a literal one has none; each of them may be
of one line, or of several between triple quotes.

Every reader begins behind the opening quotes and gives the text and what follows the closing ones.
-/

namespace ScriptScope
namespace Toml

/-- Whether a character may stand in a comment or a string: no control character but the tab. -/
def isPlain (c : Char) : Bool :=
  c = '\t' || (0x20 ≤ c.toNat && c.toNat ≠ 0x7F)

/-- The character with a number, if the number is that of a character. -/
def charOf? (n : Nat) : Option Char :=
  if n < 0xD800 ∨ (0xE000 ≤ n ∧ n < 0x110000) then some (Char.ofNat n) else none

/-- The character that digits write in base sixteen. -/
def numbered? (digits : List Char) : Option Char :=
  (Hex.value? digits).bind charOf?

/-- The character that a short escape stands for. -/
def shortEscape? (c : Char) : Option Char :=
  if c = '\x22' ∨ c = '\\' then some c
  else if c = 'b' then some '\x08'
  else if c = 't' then some '\t'
  else if c = 'n' then some '\n'
  else if c = 'f' then some '\x0c'
  else if c = 'r' then some '\r'
  else if c = 'e' then some '\x1b'
  else none

/-- A text with one more character in front. -/
def push (c : Char) (read : Option (List Char × List Char)) : Option (List Char × List Char) :=
  read.map fun (text, rest) => (c :: text, rest)

/-- The rest of a basic string of one line. -/
def basic : List Char → Option (List Char × List Char)
  | [] => none
  | '\x22' :: rest => some ([], rest)
  | '\\' :: 'x' :: a :: b :: rest => (numbered? [a, b]).bind fun c => push c (basic rest)
  | '\\' :: 'u' :: a :: b :: c :: d :: rest =>
    (numbered? [a, b, c, d]).bind fun e => push e (basic rest)
  | '\\' :: 'U' :: a :: b :: c :: d :: e :: f :: g :: h :: rest =>
    (numbered? [a, b, c, d, e, f, g, h]).bind fun i => push i (basic rest)
  | '\\' :: c :: rest => (shortEscape? c).bind fun c => push c (basic rest)
  | c :: rest => if isPlain c ∧ c ≠ '\\' then push c (basic rest) else none

/-- The rest of a literal string of one line. -/
def literal : List Char → Option (List Char × List Char)
  | [] => none
  | c :: rest =>
    if c = '\x27' then some ([], rest)
    else if isPlain c then push c (literal rest) else none

/-- Where the reading of a basic string of several lines stands. -/
inductive Fold where
  /-- In the text. -/
  | text
  /-- Behind a backslash, in the blanks before the end of its line. -/
  | escaped
  /-- Behind that end, in blanks that do not count. -/
  | skipping
deriving DecidableEq, Repr

/-- The rest of a basic string of several lines. Up to two quotes may stand before the closing
three. A backslash at the end of a line joins it to the next text. -/
def multiBasic (fold : Fold) (cs : List Char) : Option (List Char × List Char) :=
  match fold, cs with
  | _, [] => none
  | .escaped, '\n' :: rest => multiBasic .skipping rest
  | .escaped, '\r' :: '\n' :: rest => multiBasic .skipping rest
  | .escaped, c :: rest => if c = ' ' ∨ c = '\t' then multiBasic .escaped rest else none
  | .skipping, ' ' :: rest => multiBasic .skipping rest
  | .skipping, '\t' :: rest => multiBasic .skipping rest
  | .skipping, '\n' :: rest => multiBasic .skipping rest
  | .skipping, '\r' :: '\n' :: rest => multiBasic .skipping rest
  | _, '\x22' :: '\x22' :: '\x22' :: '\x22' :: '\x22' :: rest => some (['\x22', '\x22'], rest)
  | _, '\x22' :: '\x22' :: '\x22' :: '\x22' :: rest => some (['\x22'], rest)
  | _, '\x22' :: '\x22' :: '\x22' :: rest => some ([], rest)
  | _, '\\' :: 'x' :: a :: b :: rest =>
    (numbered? [a, b]).bind fun c => push c (multiBasic .text rest)
  | _, '\\' :: 'u' :: a :: b :: c :: d :: rest =>
    (numbered? [a, b, c, d]).bind fun e => push e (multiBasic .text rest)
  | _, '\\' :: 'U' :: a :: b :: c :: d :: e :: f :: g :: h :: rest =>
    (numbered? [a, b, c, d, e, f, g, h]).bind fun i => push i (multiBasic .text rest)
  | _, '\\' :: '\n' :: rest => multiBasic .skipping rest
  | _, '\\' :: '\r' :: '\n' :: rest => multiBasic .skipping rest
  | _, '\\' :: c :: rest =>
    if c = ' ' ∨ c = '\t' then multiBasic .escaped rest
    else (shortEscape? c).bind fun c => push c (multiBasic .text rest)
  | _, '\r' :: '\n' :: rest => push '\n' (multiBasic .text rest)
  | _, c :: rest =>
    if c = '\n' ∨ (isPlain c ∧ c ≠ '\\') then push c (multiBasic .text rest) else none

/-- The rest of a literal string of several lines. -/
def multiLiteral : List Char → Option (List Char × List Char)
  | [] => none
  | '\x27' :: '\x27' :: '\x27' :: '\x27' :: '\x27' :: rest => some (['\x27', '\x27'], rest)
  | '\x27' :: '\x27' :: '\x27' :: '\x27' :: rest => some (['\x27'], rest)
  | '\x27' :: '\x27' :: '\x27' :: rest => some ([], rest)
  | '\r' :: '\n' :: rest => push '\n' (multiLiteral rest)
  | c :: rest => if c = '\n' ∨ isPlain c then push c (multiLiteral rest) else none

/-- What follows a line break at the very start of a string of several lines. -/
def dropBreak : List Char → List Char
  | '\n' :: rest => rest
  | '\r' :: '\n' :: rest => rest
  | cs => cs

/-- A string of any kind. -/
def string? : List Char → Option (List Char × List Char)
  | '\x22' :: '\x22' :: '\x22' :: rest => multiBasic .text (dropBreak rest)
  | '\x27' :: '\x27' :: '\x27' :: rest => multiLiteral (dropBreak rest)
  | '\x22' :: rest => basic rest
  | '\x27' :: rest => literal rest
  | _ => none

end Toml
end ScriptScope

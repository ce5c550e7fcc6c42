import ScriptScope.Toml.Scalar
import ScriptScope.Toml.Text

/-!
# ScriptScope.Toml.Reader

The lines of a TOML document.

Readers take the characters in front of them and give what is left. Values nest at most `maxDepth`
deep, and a key has at most as many names.

The readers of values count down a number that begins above the length of the text. An array costs
two and has two brackets, an inline table three at most and has two braces and an equals sign, and
every further item costs one and stands behind a comma. So the count does not run out in a text that
can be read.

* `read`: the tables of a document, which may begin with a byte order mark.
-/

namespace ScriptScope
namespace Toml

/-- Whether a character is a blank inside a line. -/
def isSpace (c : Char) : Bool :=
  c = ' ' || c = '\t'

/-- What follows the blanks of a line. -/
def skipSpace (cs : List Char) : List Char :=
  cs.dropWhile isSpace

/-- What follows a comment, which ends before a line break or at the end of the document. -/
def afterComment (cs : List Char) : List Char :=
  cs.dropWhile isPlain

/-- What follows the end of a line: blanks, a comment, and a line break or the end of the
document. -/
def endLine? (cs : List Char) : Option (List Char) :=
  let rest := match skipSpace cs with
    | '#' :: rest => afterComment rest
    | rest => rest
  match rest with
  | [] => some []
  | '\n' :: rest => some rest
  | '\r' :: '\n' :: rest => some rest
  | _ => none

/-- What follows blanks, comments and line breaks inside brackets. -/
def skipLines? (inComment : Bool) (cs : List Char) : Option (List Char) :=
  match inComment, cs with
  | _, [] => some []
  | _, '\n' :: rest => skipLines? false rest
  | _, '\r' :: '\n' :: rest => skipLines? false rest
  | true, c :: rest => if isPlain c then skipLines? true rest else none
  | false, '#' :: rest => skipLines? true rest
  | false, c :: rest => if isSpace c then skipLines? false rest else some (c :: rest)

/-- Whether a character may stand in a bare key. -/
def isBare (c : Char) : Bool :=
  c.isAlphanum || c = '_' || c = '-'

/-- A key without dots: bare, or a string of one line. -/
def simpleKey? (cs : List Char) : Option (String × List Char) :=
  match cs with
  | '\x22' :: rest => (basic rest).map fun (text, rest) => (String.ofList text, rest)
  | '\x27' :: rest => (literal rest).map fun (text, rest) => (String.ofList text, rest)
  | cs =>
    let name := cs.takeWhile isBare
    if name = [] then none else some (String.ofList name, cs.dropWhile isBare)

/-- A key of at most so many names, and the blanks behind it. -/
def keyOf? : (names : Nat) → List Char → Option (KeyPath × List Char)
  | 0, _ => none
  | names + 1, cs =>
    (simpleKey? cs).bind fun (name, rest) =>
      match skipSpace rest with
      | '.' :: rest =>
        (keyOf? names (skipSpace rest)).map fun (path, rest) =>
          (⟨name :: path.parents, path.last⟩, rest)
      | rest => some (⟨[], name⟩, rest)

/-- How many names a key may have, and how deep arrays and inline tables may nest. -/
def maxDepth : Nat := 80

def key? (cs : List Char) : Option (KeyPath × List Char) :=
  keyOf? maxDepth cs

/-- Whether a character may stand in a value without quotes and brackets. -/
def isScalar (c : Char) : Bool :=
  c.isAlphanum || c = '_' || c = '-' || c = '+' || c = '.' || c = ':'

/-- A value without quotes and brackets. A date may be parted from its time by a blank. -/
def bareValue? (cs : List Char) : Option (Value × List Char) :=
  let word := cs.takeWhile isScalar
  let rest := cs.dropWhile isScalar
  match afterDate? word, rest with
  | some [], ' ' :: more =>
    if more.head?.any Char.isDigit then
      (scalar? (word ++ ' ' :: more.takeWhile isScalar)).map fun v =>
        (v, more.dropWhile isScalar)
    else some (.moment, rest)
  | _, _ => (scalar? word).map fun v => (v, rest)

mutual

/-- A value inside so many more levels of brackets as may be opened. -/
def value? : (fuel depth : Nat) → List Char → Option (Value × List Char)
  | 0, _, _ => none
  | fuel + 1, depth, cs =>
    match cs with
    | '[' :: rest =>
      if depth = 0 then none
      else (items? fuel (depth - 1) rest).map fun (items, rest) => (.array items, rest)
    | '\x7b' :: rest =>
      if depth = 0 then none
      else (pairs? fuel (depth - 1) rest).map fun (pairs, rest) => (.inline pairs, rest)
    | '\x22' :: _ | '\x27' :: _ =>
      (string? cs).map fun (text, rest) => (.text (String.ofList text), rest)
    | _ => bareValue? cs

/-- The items of an array up to its end. -/
def items? : (fuel depth : Nat) → List Char → Option (List Value × List Char)
  | 0, _, _ => none
  | fuel + 1, depth, cs =>
    match skipLines? false cs with
    | none => none
    | some (']' :: rest) => some ([], rest)
    | some cs =>
      (value? fuel depth cs).bind fun (item, rest) =>
        match skipLines? false rest with
        | some (']' :: rest) => some ([item], rest)
        | some (',' :: rest) =>
          (items? fuel depth rest).map fun (items, rest) => (item :: items, rest)
        | _ => none

/-- The pairs of an inline table up to its end. -/
def pairs? : (fuel depth : Nat) → List Char → Option (List (KeyPath × Value) × List Char)
  | 0, _, _ => none
  | fuel + 1, depth, cs =>
    match skipLines? false cs with
    | none => none
    | some ('\x7d' :: rest) => some ([], rest)
    | some cs =>
      (pair? fuel depth cs).bind fun (pair, rest) =>
        match skipLines? false rest with
        | some ('\x7d' :: rest) => some ([pair], rest)
        | some (',' :: rest) =>
          (pairs? fuel depth rest).map fun (pairs, rest) => (pair :: pairs, rest)
        | _ => none

/-- A key and its value inside braces, where lines may break on both sides of the equals sign. -/
def pair? : (fuel depth : Nat) → List Char → Option ((KeyPath × Value) × List Char)
  | 0, _, _ => none
  | fuel + 1, depth, cs =>
    (key? cs).bind fun (key, rest) =>
      match skipLines? false rest with
      | some ('=' :: rest) =>
        (skipLines? false rest).bind fun rest =>
          (value? fuel depth rest).map fun (value, rest) => ((key, value), rest)
      | _ => none

end

/-- A key and its value on a line of their own. The value may take more lines, but must begin on the
line of the key. -/
def linePair? (fuel : Nat) (cs : List Char) : Option ((KeyPath × Value) × List Char) :=
  match key? cs with
  | some (key, '=' :: rest) =>
    (value? fuel maxDepth (skipSpace rest)).map fun (value, rest) => ((key, value), rest)
  | _ => none

/-- A line that is not blank. -/
def statement? (fuel : Nat) (cs : List Char) : Option (Statement × List Char) :=
  match cs with
  | '[' :: '[' :: rest =>
    match key? (skipSpace rest) with
    | some (key, ']' :: ']' :: rest) => some (.repeatedHeader key, rest)
    | _ => none
  | '[' :: rest =>
    match key? (skipSpace rest) with
    | some (key, ']' :: rest) => some (.header key, rest)
    | _ => none
  | cs => (linePair? fuel cs).map fun ((key, value), rest) => (.pair key value, rest)

def statements? : (fuel : Nat) → List Char → Option (List Statement)
  | 0, _ => none
  | fuel + 1, cs =>
    match cs with
    | [] => some []
    | cs =>
      match endLine? cs with
      | some rest => statements? fuel rest
      | none =>
        (statement? (cs.length + 1) (skipSpace cs)).bind fun (statement, rest) =>
          (endLine? rest).bind fun rest => (statements? fuel rest).map (statement :: ·)

/-- What follows a byte order mark. -/
def dropMark : List Char → List Char
  | '\uFEFF' :: rest => rest
  | cs => cs

def read (text : String) : Option Entries :=
  let cs := dropMark text.toList
  (statements? (cs.length + 1) cs).bind build

end Toml
end ScriptScope

import ScriptScope.Json
import ScriptScope.Text.Hex

/-!
# ScriptScope.Json.Writer

JSON values as documents, without blanks. Strings escape the quote, the backslash and the control
characters below the space, and nothing else; a control character that has a short escape takes it.
-/

namespace ScriptScope
namespace Json

/-- A character as it stands in a string literal. -/
def escapeChar (c : Char) : List Char :=
  if c = '\x22' ∨ c = '\\' then ['\\', c]
  else if c = '\n' then ['\\', 'n']
  else if c = '\r' then ['\\', 'r']
  else if c = '\t' then ['\\', 't']
  else if c = '\x08' then ['\\', 'b']
  else if c = '\x0c' then ['\\', 'f']
  else if c.toNat < 0x20 then ['\\', 'u', '0', '0'] ++ Hex.byte (UInt8.ofNat c.toNat)
  else [c]

def literal (s : String) : List Char :=
  '\x22' :: s.toList.flatMap escapeChar ++ ['\x22']

/-- A literal that denotes no text: half a surrogate pair. -/
def noText : List Char :=
  "\"\\ud800\"".toList

/-- A string literal, whether it denotes a text or not. -/
def textChars : Option String → List Char
  | some s => literal s
  | none => noText

/-- The spelling of a value without parts. -/
def Scalar.chars : Scalar → List Char
  | .null => "null".toList
  | .bool true => "true".toList
  | .bool false => "false".toList
  | .integer n => Decimal.signed n
  | .real literal => literal.toList
  | .text value => textChars value

mutual

def chars : Json → List Char
  | .scalar value => value.chars
  | .array [] => ['[', ']']
  | .array (item :: rest) => '[' :: (item.chars ++ itemsChars rest)
  | .object [] => ['\x7b', '\x7d']
  | .object ((key, value) :: rest) =>
    '\x7b' :: (textChars key ++ ':' :: (value.chars ++ membersChars rest))

/-- The further items of an array and its end. -/
def itemsChars : List Json → List Char
  | [] => [']']
  | item :: rest => ',' :: (item.chars ++ itemsChars rest)

/-- The further members of an object and its end. -/
def membersChars : List (Option String × Json) → List Char
  | [] => ['\x7d']
  | (key, value) :: rest => ',' :: (textChars key ++ ':' :: (value.chars ++ membersChars rest))

end

def render (j : Json) : String :=
  String.ofList j.chars

end Json
end ScriptScope

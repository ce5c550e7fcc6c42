import ScriptScope.Text.Decimal
import ScriptScope.Text.Printable

/-!
# ScriptScope.Text.Quoted

Texts and characters between quotes. The quote itself, the backslash and five control characters
have short escapes; every other character that is not printable is written by its number in
lower-case hexadecimal between braces.
-/

namespace ScriptScope
namespace Quoted

/-- The number of a character in lower-case hexadecimal between braces. -/
def numbered (c : Char) : List Char :=
  ['\\', 'u', '\x7b'] ++ Nat.toDigits 16 c.toNat ++ ['\x7d']

/-- A character as it stands between two marks of the given kind. -/
def escape (quote : Char) (c : Char) : List Char :=
  if c = quote ∨ c = '\\' then ['\\', c]
  else if c = '\n' then ['\\', 'n']
  else if c = '\r' then ['\\', 'r']
  else if c = '\t' then ['\\', 't']
  else if c.toNat = 0 then ['\\', '0']
  else if Text.isPrintable c then [c]
  else numbered c

/-- A character between single quotes. -/
def char (c : Char) : List Char :=
  '\x27' :: escape '\x27' c ++ ['\x27']

def text (cs : List Char) : List Char :=
  '\x22' :: cs.flatMap (escape '\x22') ++ ['\x22']

end Quoted
end ScriptScope

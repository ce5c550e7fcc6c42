import ScriptScope.Listing.Annotation

/-!
# ScriptScope.Listing.Line

One line of a listing: an address column, the opcode, the operand bytes and a comment.

The address column can be at most `Line.maxWidth` characters wide. A line has no text in a wider
column, however short its address is.
-/

namespace ScriptScope

structure Line where
  address : Nat
  mnemonic : String
  /-- Operand bytes, empty when there are none. -/
  operand : String
  /-- Comment, empty when there is nothing to say. -/
  annotation : String
deriving DecidableEq, Repr

namespace Line

/-- The widest address column. -/
def maxWidth : Nat := 65535

/-- Width of the address column of a line that stands alone, and the least in a listing. -/
def defaultWidth : Nat := 3

/-- The bytes of an operand: two upper-case digits each, with dashes between. -/
def operandText (operand : Bytes) : String :=
  String.ofList (List.intercalate ['-'] (operand.map Hex.upperByte))

def ofInstruction (names : SyscallNames) (i : Instruction) : Line where
  address := i.position
  mnemonic := i.opcode.name
  operand := operandText i.operand
  annotation := Annotation.ofInstruction names i

/-- What stands behind the address column. -/
def body (line : Line) : String :=
  line.mnemonic ++ (if line.operand = "" then "" else " " ++ line.operand) ++
    (if line.annotation = "" then "" else " # " ++ line.annotation)

/-- The text of the line in a column of `width` characters, whether it can be written or not. -/
def row (width : Nat) (line : Line) : String :=
  String.ofList (Decimal.padded width line.address) ++ " " ++ line.body

/-- The text of the line with an address column of `width` characters, if so wide a column can be
written. -/
def text? (width : Nat) (line : Line) : Option String :=
  if width ≤ maxWidth then some (line.row width) else none

/-- The text of a line that stands alone. -/
def text (line : Line) : String :=
  line.row defaultWidth

theorem text?_of_le {width : Nat} (h : width ≤ maxWidth) (line : Line) :
    line.text? width = some (line.row width) := if_pos h

theorem text?_defaultWidth (line : Line) : line.text? defaultWidth = some line.text := rfl

end Line
end ScriptScope

import ScriptScope.Instruction
import ScriptScope.Interop
import ScriptScope.ScriptHash
import ScriptScope.Text.Blank

/-!
# ScriptScope.Listing.Annotation

The comment that a listing puts behind an instruction: the text of a pushed literal, the target of
a branch, the hash of a called contract, the name of a system call.

Only branches look at the position of the instruction, and only system calls by hash look at the
table of names.
-/

namespace ScriptScope
namespace Annotation

/-- The signed number of two bytes, least significant first. -/
def signedPair (low high : UInt8) : Int :=
  Int.bmod (low.toNat + 256 * high.toNat) 65536

/-- The address that a branch leads to: its offset is counted from `origin`. -/
def target? (origin : Nat) : Bytes → Option Int
  | low :: high :: _ => some (origin + signedPair low high)
  | _ => none

/-- The field that shows the target of a branch. -/
def targetField (target : Int) : String :=
  "position: " ++ String.ofList (Decimal.signed target)

/-- The fields that show the two counts in front of a call's operand. -/
def countFields (operand : Bytes) : List String :=
  (operand.head?.map fun b => "rvcount: " ++ toString b.toNat).toList ++
    (operand[1]?.map fun b => "pcount: " ++ toString b.toNat).toList

def joined (fields : List String) : String :=
  String.intercalate ", " fields

/-- The two counts of a call with one more field behind them. -/
theorem joined_countFields (results parameters : UInt8) (rest : Bytes) (last : String) :
    joined (countFields (results :: parameters :: rest) ++ [last]) =
      "rvcount: " ++ toString results.toNat ++ ", " ++
        ("pcount: " ++ toString parameters.toNat) ++ ", " ++ last := rfl

/-- The text of a pushed literal, if it is a non-empty text without control characters. -/
def literalText? (operand : Bytes) : Option String :=
  (Utf8.decode? operand).filter fun text =>
    text.toList ≠ [] && !text.toList.any Text.isControl

/-- The name of a system call: by hash when the operand has four bytes, else in its own words. -/
def callName (names : SyscallNames) (operand : Bytes) : String :=
  if operand.length = 4 then
    let hash := Bytes.littleWord operand
    (names hash).getD ("hash: 0x" ++ String.ofList (Hex.word hash))
  else Utf8.decodeLossy operand

/-- The hash of the contract whose bytes these are. -/
def contractText? (bs : Bytes) : Option String :=
  (ScriptHash.ofBytes? bs).map ScriptHash.text

/-- The comment on an instruction; empty when there is nothing to say. -/
def ofInstruction (names : SyscallNames) (i : Instruction) : String :=
  match i.opcode.role with
  | .zeroOrFalse => "PUSH0 or PUSHF: integer 0 or boolean false (ambiguous)"
  | .oneOrTrue => "PUSH1 or PUSHT: integer 1 or boolean true (ambiguous)"
  | .literal => (literalText? i.operand).getD ""
  | .branch => ((target? i.position i.operand).map targetField).getD ""
  | .contract => (contractText? i.operand).getD ""
  | .countedBranch =>
    joined (countFields i.operand ++
      ((target? (i.position + 2) (i.operand.drop 2)).map targetField).toList)
  | .countedContract =>
    joined (countFields i.operand ++ (contractText? (i.operand.drop 2)).toList)
  | .counts => joined (countFields i.operand)
  | .systemCall => callName names i.operand
  | .nothing => ""

end Annotation
end ScriptScope

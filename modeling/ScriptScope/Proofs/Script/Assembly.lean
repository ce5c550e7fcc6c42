import Mathlib.Algebra.GroupWithZero.Nat
import ScriptScope.Proofs.Script.Reading

/-!
# ScriptScope.Proofs.Script.Assembly

Writing instructions and reading them again. An instruction that has no place yet is an opcode with
its operand; `assemble` puts such parts one behind the other.

* `listFrom_assemble`: the parts are read back in order from any address, whatever stands behind
  them. Operand bytes may look like opcodes or lengths.
* `list_assemble`: a script of parts has exactly their instructions, so no script can be made of
  parts in two ways.
-/

namespace ScriptScope
namespace Instruction

/-- The bytes of an instruction that has no place yet. -/
def encodePart (part : Opcode × Bytes) : Bytes :=
  encode ⟨0, part.1, part.2⟩

def partSize (part : Opcode × Bytes) : Nat :=
  size ⟨0, part.1, part.2⟩

/-- The script that parts make, one behind the other. -/
def assemble (parts : List (Opcode × Bytes)) : Bytes :=
  parts.flatMap encodePart

/-- The opcode and the operand of an item that is read. -/
def part? : Except DecodeError Instruction → Option (Opcode × Bytes)
  | .ok i => some (i.opcode, i.operand)
  | .error _ => none

theorem listFrom_encode {i : Instruction} (fits : i.opcode.Admits i.operand.length)
    (tail : Bytes) :
    listFrom i.position (i.encode ++ tail) = .ok i :: listFrom i.next tail := by
  have hread := readOperand_encode i.position fits tail
  have hsize : i.size - 1 =
      (Bytes.toLittleEndian i.opcode.prefixWidth i.operand.length ++ i.operand).length := by
    simp [size]
    omega
  rw [encode, List.cons_append, listFrom, hread]
  simp only
  rw [hsize, List.drop_left]

theorem listFrom_assemble (position : Nat) {parts : List (Opcode × Bytes)}
    (fits : ∀ part ∈ parts, part.1.Admits part.2.length) (tail : Bytes) :
    listFrom position (assemble parts ++ tail) =
      (parts.mapIdx fun k part =>
        .ok ⟨position + ((parts.take k).map partSize).sum, part.1, part.2⟩) ++
      listFrom (position + (parts.map partSize).sum) tail := by
  -- each part begins where the one before it ends
  induction parts generalizing position with
  | nil => simp [assemble]
  | cons part parts ih =>
    have hrest := ih (position + partSize part) fun q hq => fits q (by simp [hq])
    have hstep : listFrom position (assemble (part :: parts) ++ tail) =
        .ok ⟨position, part.1, part.2⟩ ::
          listFrom (position + partSize part) (assemble parts ++ tail) := by
      rw [assemble, List.flatMap_cons, List.append_assoc]
      exact listFrom_encode (i := ⟨position, part.1, part.2⟩) (fits part (by simp)) _
    rw [hstep, hrest, List.mapIdx_cons]
    simp [Nat.add_assoc]

theorem filterMap_part?_mapIdx (parts : List (Opcode × Bytes)) (place : Nat → Nat) :
    (parts.mapIdx fun k part => .ok ⟨place k, part.1, part.2⟩).filterMap part? = parts := by
  induction parts generalizing place with
  | nil => rfl
  | cons part parts ih =>
    rw [List.mapIdx_cons, List.filterMap_cons]
    simp only [part?]
    rw [ih fun k => place (k + 1)]

theorem list_assemble_eq {parts : List (Opcode × Bytes)}
    (fits : ∀ part ∈ parts, part.1.Admits part.2.length) :
    list (assemble parts) = parts.mapIdx fun k part =>
      .ok ⟨((parts.take k).map partSize).sum, part.1, part.2⟩ := by
  have h := listFrom_assemble 0 fits []
  simpa [list, listFrom] using h

theorem list_assemble {parts : List (Opcode × Bytes)}
    (fits : ∀ part ∈ parts, part.1.Admits part.2.length) :
    (list (assemble parts) = parts.mapIdx fun k part =>
        .ok ⟨((parts.take k).map partSize).sum, part.1, part.2⟩) ∧
      ∀ others : List (Opcode × Bytes), (∀ part ∈ others, part.1.Admits part.2.length) →
        assemble others = assemble parts → others = parts := by
  refine ⟨list_assemble_eq fits, ?_⟩
  intro others hothers heq
  have h := congrArg (fun script => (list script).filterMap part?) heq
  simpa only [list_assemble_eq fits, list_assemble_eq hothers, filterMap_part?_mapIdx] using h

/-- A push whose bytes look like a jump, a push with its length in two bytes, and a return. -/
theorem list_assemble_pushes :
    (∀ part ∈ ([(⟨0x03⟩, [0x62, 0x4D, 0xFF]), (⟨0x4D⟩, [0x66]), (⟨0x66⟩, [])] :
        List (Opcode × Bytes)), part.1.Admits part.2.length) ∧
      list [0x03, 0x62, 0x4D, 0xFF, 0x4D, 0x01, 0x00, 0x66, 0x66] =
        [.ok ⟨0, ⟨0x03⟩, [0x62, 0x4D, 0xFF]⟩, .ok ⟨4, ⟨0x4D⟩, [0x66]⟩, .ok ⟨8, ⟨0x66⟩, []⟩] :=
  have fits : ∀ part ∈ ([(⟨0x03⟩, [0x62, 0x4D, 0xFF]), (⟨0x4D⟩, [0x66]), (⟨0x66⟩, [])] :
      List (Opcode × Bytes)), part.1.Admits part.2.length := by decide
  ⟨fits, (list_assemble fits).1⟩

end Instruction
end ScriptScope

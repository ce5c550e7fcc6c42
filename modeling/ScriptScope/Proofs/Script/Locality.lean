import ScriptScope.Proofs.Script.Assembly

/-!
# ScriptScope.Proofs.Script.Locality

What the reading of an instruction depends on: the bytes of that instruction. The address it stands
at goes into the result and decides nothing (`readOperand_shift`), and bytes behind it are not
looked at (`readOperand_append`).

* `list_append`: a complete script in front of another one moves the instructions of that one, and
  its fault, and adds its own.
* `readOperand_take_error`: so bytes can be taken away from an instruction that is cut off.
-/

namespace ScriptScope

namespace DecodeError

/-- The fault of the same bytes so much further on. -/
def shift (distance : Nat) : DecodeError → DecodeError
  | .truncated position opcode needed available =>
    .truncated (position + distance) opcode needed available
  | .outOfRange position length => .outOfRange (position + distance) (length + distance)

end DecodeError

namespace Instruction

def shift (distance : Nat) (i : Instruction) : Instruction :=
  { i with position := i.position + distance }

/-- An item of a reading so much further on. -/
def shiftItem (distance : Nat) : Except DecodeError Instruction → Except DecodeError Instruction
  | .ok i => .ok (i.shift distance)
  | .error e => .error (e.shift distance)

theorem next_shift (distance : Nat) (i : Instruction) :
    (i.shift distance).next = i.next + distance := by
  simp only [next, shift, size]
  omega

/-! ## Moving a script -/

theorem readOperand_shift (distance position : Nat) (opcode : Opcode) (rest : Bytes) :
    readOperand (position + distance) opcode rest =
      shiftItem distance (readOperand position opcode rest) := by
  simp only [readOperand]
  split
  · rfl
  · split <;> rfl

theorem listFrom_shift (distance position : Nat) (bs : Bytes) :
    listFrom (position + distance) bs = (listFrom position bs).map (shiftItem distance) := by
  fun_induction listFrom position bs with
  | case1 => simp [listFrom]
  | case2 position b rest e he =>
    rw [listFrom, readOperand_shift, he]
    rfl
  | case3 position b rest i hi ih =>
    have hsize : (i.shift distance).size = i.size := rfl
    rw [listFrom, readOperand_shift, hi]
    simp only [shiftItem, next_shift, hsize, ih, List.map_cons]

theorem decoded_map_shiftItem (distance : Nat) (items : List (Except DecodeError Instruction)) :
    decoded (items.map (shiftItem distance)) = (decoded items).map (shift distance) := by
  induction items with
  | nil => rfl
  | cons item items ih =>
    cases item with
    | ok i => simp [shiftItem, ih]
    | error e => simp [shiftItem, ih]

theorem fault?_map_shiftItem (distance : Nat) (items : List (Except DecodeError Instruction)) :
    fault? (items.map (shiftItem distance)) = (fault? items).map (DecodeError.shift distance) := by
  induction items with
  | nil => rfl
  | cons item items ih =>
    cases item with
    | ok i => simp [shiftItem, ih]
    | error e => simp [shiftItem]

/-! ## Adding bytes -/

theorem readOperand_append {position : Nat} {opcode : Opcode} {rest : Bytes} {i : Instruction}
    (h : readOperand position opcode rest = .ok i) (tail : Bytes) :
    readOperand position opcode (rest ++ tail) = .ok i := by
  obtain ⟨rfl, rfl, hadm, hbytes⟩ := readOperand_sound h
  -- what is left of the bytes is longer, the operand is the same
  have hrest : rest = Bytes.toLittleEndian i.opcode.prefixWidth i.operand.length ++ i.operand ++
      rest.drop (i.size - 1) := by
    simpa [encode] using hbytes
  rw [hrest, List.append_assoc]
  exact readOperand_encode i.position hadm _

theorem readOperand_take_error {position : Nat} {opcode : Opcode} {rest : Bytes} {e : DecodeError}
    (h : readOperand position opcode rest = .error e) (n : Nat) :
    ∃ fault, readOperand position opcode (rest.take n) = .error fault := by
  cases hread : readOperand position opcode (rest.take n) with
  | error fault => exact ⟨fault, rfl⟩
  | ok i =>
    have hwhole := readOperand_append hread (rest.drop n)
    rw [List.take_append_drop, h] at hwhole
    cases hwhole

theorem Reads.listFrom_append {position : Nat} {bs : Bytes}
    {items : List (Except DecodeError Instruction)} (h : Reads position bs items)
    (hnone : fault? items = none) (tail : Bytes) :
    listFrom position (bs ++ tail) = items ++ listFrom (position + bs.length) tail := by
  induction h with
  | done => rfl
  | cut => cases hnone
  | @more i rest items hadm hr ih =>
    have hplace : i.next + rest.length = i.position + (i.encode ++ rest).length := by
      simp only [next, List.length_append, length_encode]
      omega
    rw [List.append_assoc, listFrom_encode hadm, ih hnone, hplace, List.cons_append]

theorem Reads.admits_of_mem_decoded {position : Nat} {bs : Bytes}
    {items : List (Except DecodeError Instruction)} (h : Reads position bs items) :
    ∀ i ∈ decoded items, i.opcode.Admits i.operand.length := by
  induction h with
  | done => simp
  | cut => simp
  | @more i rest items hadm hr ih =>
    intro j hj
    rw [decoded_ok_cons, List.mem_cons] at hj
    rcases hj with rfl | hj
    · exact hadm
    · exact ih j hj

theorem list_append {script : Bytes} (h : fault? (list script) = none) (tail : Bytes) :
    list (script ++ tail) = list script ++ (list tail).map (shiftItem script.length) := by
  rw [list, (reads_listFrom 0 script).listFrom_append h, listFrom_shift]
  rfl

end Instruction
end ScriptScope

import Mathlib.Order.Bounds.Basic
import ScriptScope.Listing
import ScriptScope.Proofs.Script.Locality

/-!
# ScriptScope.Proofs.Listing.Cut

Listings of scripts that are cut off. The cut may fall behind an opcode, into a length or into an
operand, and the script may end in a fault already.

* `decoded_list_take`: the instructions that end before the cut are read, and no others.
* `isGreatest_take`: so reading stops at the last boundary that is not behind the cut.
* `ofScript_take`: the listing has the lines of these instructions; it is complete if the cut is at
  a boundary, and says otherwise which instruction is cut and how much of it is there.
-/

namespace ScriptScope
namespace Instruction

namespace Reads

variable {position : Nat} {bs : Bytes} {items : List (Except DecodeError Instruction)}

theorem le_position_of_mem_decoded (h : Reads position bs items) :
    ∀ i ∈ decoded items, position ≤ i.position := by
  induction h with
  | done => simp
  | cut => simp
  | @more i rest items hadm hr ih =>
    intro j hj
    rw [decoded_ok_cons, List.mem_cons] at hj
    rcases hj with rfl | hj
    · exact Nat.le_refl _
    · exact Nat.le_trans (Nat.le_of_lt i.position_lt_next) (ih j hj)

theorem lt_next_of_mem_decoded (h : Reads position bs items) :
    ∀ i ∈ decoded items, position < i.next := by
  intro i hi
  exact Nat.lt_of_le_of_lt (h.le_position_of_mem_decoded i hi) i.position_lt_next

end Reads

/-- Of an instruction that is cut off nothing is read. -/
theorem decoded_take_encode {i : Instruction} {c : Nat} (hc : c < i.size)
    (hadm : i.opcode.Admits i.operand.length) (tail : Bytes) :
    decoded (listFrom i.position ((i.encode ++ tail).take c)) = [] := by
  cases c with
  | zero => simp [listFrom]
  | succ k =>
    have hwhole := readOperand_encode i.position hadm tail
    generalize hrest : Bytes.toLittleEndian i.opcode.prefixWidth i.operand.length ++ i.operand ++
      tail = rest at hwhole
    have hbytes : i.encode ++ tail = i.opcode.value :: rest := by
      rw [encode, List.cons_append, hrest]
    rw [hbytes, List.take_succ_cons, listFrom]
    cases hread : readOperand i.position i.opcode (rest.take k) with
    | error e => rfl
    | ok j =>
      -- what is read from fewer bytes is read from all of them, so it is the whole instruction
      have hsame := readOperand_append hread (rest.drop k)
      rw [List.take_append_drop, hwhole] at hsame
      obtain rfl : i = j := Except.ok.inj hsame
      have hsize := (readOperand_ok hread).2.2
      rw [List.length_take] at hsize
      omega

theorem Reads.decoded_take {position : Nat} {bs : Bytes}
    {items : List (Except DecodeError Instruction)} (h : Reads position bs items) (c : Nat) :
    decoded (listFrom position (bs.take c)) =
      (decoded items).filter fun i => i.next ≤ position + c := by
  induction h generalizing c with
  | done => simp [listFrom]
  | @cut position needed opcode rest hlt he =>
    cases c with
    | zero => simp [listFrom]
    | succ k =>
      obtain ⟨fault, hfault⟩ := readOperand_take_error he k
      have hopcode : (⟨opcode.value⟩ : Opcode) = opcode := rfl
      rw [List.take_succ_cons, listFrom, hopcode, hfault]
      rfl
  | @more i tail items hadm hr ih =>
    have hnext : i.next = i.position + i.size := rfl
    by_cases hc : c < i.size
    · -- the cut is inside the first instruction, and all others end behind it
      have hnone : ∀ j ∈ decoded (.ok i :: items), ¬j.next ≤ i.position + c := by
        intro j hj
        rw [decoded_ok_cons, List.mem_cons] at hj
        rcases hj with rfl | hj
        · omega
        · have := hr.lt_next_of_mem_decoded j hj
          omega
      rw [decoded_take_encode hc hadm, eq_comm, List.filter_eq_nil_iff]
      simpa using hnone
    · have htake : (i.encode ++ tail).take c = i.encode ++ tail.take (c - i.size) := by
        rw [List.take_append, length_encode, List.take_of_length_le (by rw [length_encode]; omega)]
      have hplace : i.next + (c - i.size) = i.position + c := by omega
      have hkeep : i.next ≤ i.position + c := by omega
      rw [htake, listFrom_encode hadm, decoded_ok_cons, decoded_ok_cons, ih, hplace,
        List.filter_cons_of_pos (by simpa using hkeep)]

theorem decoded_list_take (script : Bytes) (c : Nat) :
    decoded (list (script.take c)) = (decoded (list script)).filter fun i => i.next ≤ c := by
  have h : Reads 0 script (list script) := reads_listFrom 0 script
  have htake := h.decoded_take c
  rw [Nat.zero_add] at htake
  exact htake

/-! ## Where reading stops -/

/-- The addresses at which instructions begin or end, from `position` on. -/
def boundariesFrom (position : Nat) (is : List Instruction) : List Nat :=
  position :: is.map next

/-- The addresses of a script at which instructions begin or end. -/
def boundaries (script : Bytes) : List Nat :=
  boundariesFrom 0 (decoded (list script))

theorem mem_boundariesFrom_filter {is : List Instruction} {c b : Nat} :
    b ∈ boundariesFrom 0 (is.filter fun i => i.next ≤ c) ↔ b ∈ boundariesFrom 0 is ∧ b ≤ c := by
  simp only [boundariesFrom, List.mem_cons, List.mem_map, List.mem_filter, decide_eq_true_eq]
  constructor
  · rintro (rfl | ⟨i, ⟨hmem, hle⟩, rfl⟩)
    · exact ⟨.inl rfl, Nat.zero_le c⟩
    · exact ⟨.inr ⟨i, hmem, rfl⟩, hle⟩
  · rintro ⟨rfl | ⟨i, hmem, rfl⟩, hle⟩
    · exact .inl rfl
    · exact .inr ⟨i, ⟨hmem, hle⟩, rfl⟩

/-- How many bytes a list of instructions takes. -/
def extent (is : List Instruction) : Nat :=
  (is.flatMap encode).length

theorem extent_cons (i : Instruction) (is : List Instruction) :
    extent (i :: is) = i.size + extent is := by
  simp [extent]

namespace Reads

variable {position : Nat} {bs : Bytes} {items : List (Except DecodeError Instruction)}

/-- The bytes that are read end at the last boundary. -/
theorem isGreatest_boundariesFrom (h : Reads position bs items) :
    IsGreatest {b | b ∈ boundariesFrom position (decoded items)}
      (position + extent (decoded items)) := by
  induction h with
  | done => simp [boundariesFrom, extent]
  | cut => simp [boundariesFrom, extent]
  | @more i tail items hadm hr ih =>
    have hnext : i.next = i.position + i.size := rfl
    have hmem : ∀ b, b ∈ boundariesFrom i.position (decoded (.ok i :: items)) ↔
        b = i.position ∨ b ∈ boundariesFrom i.next (decoded items) := by
      simp [boundariesFrom]
    have hend : i.position + extent (decoded (.ok i :: items)) =
        i.next + extent (decoded items) := by
      rw [decoded_ok_cons, extent_cons]
      omega
    rw [hend]
    refine ⟨(hmem _).2 (.inr ih.1), ?_⟩
    intro b hb
    rcases (hmem b).1 hb with rfl | hb
    · omega
    · exact ih.2 hb

/-- A reading takes all bytes, or stops at an opcode that needs more of them. -/
theorem fault?_cases (h : Reads position bs items) :
    (fault? items = none ∧ bs.length = extent (decoded items)) ∨
      ∃ opcode needed available,
        fault? items =
          some (.truncated (position + extent (decoded items)) opcode needed available) ∧
        bs[extent (decoded items)]? = some opcode.value ∧
        extent (decoded items) + 1 + available = bs.length ∧ available < needed := by
  induction h with
  | done => exact .inl ⟨rfl, rfl⟩
  | @cut position needed opcode rest hlt he =>
    refine .inr ⟨opcode, needed, rest.length, rfl, rfl, ?_, hlt⟩
    simp only [decoded_error_cons, decoded_nil, extent, List.flatMap_nil, List.length_nil,
      List.length_cons]
    omega
  | @more i tail items hadm hr ih =>
    have hnext : i.next = i.position + i.size := rfl
    rw [fault?_ok_cons, decoded_ok_cons, extent_cons, List.length_append, length_encode]
    rcases ih with ⟨hnone, hlength⟩ | ⟨opcode, needed, available, hfault, hbyte, hlength, hlt⟩
    · exact .inl ⟨hnone, by omega⟩
    · refine .inr ⟨opcode, needed, available, ?_, ?_, by omega, hlt⟩
      · rw [hfault, hnext, Nat.add_assoc]
      · rw [List.getElem?_append_right (by rw [length_encode]; omega), length_encode,
          Nat.add_sub_cancel_left, hbyte]

end Reads

/-- Reading a cut script stops at the last boundary that is not behind the cut. -/
theorem isGreatest_take (script : Bytes) (c : Nat) :
    IsGreatest {b | b ∈ boundaries script ∧ b ≤ c} (extent (decoded (list (script.take c)))) := by
  have h : Reads 0 (script.take c) (list (script.take c)) := reads_listFrom 0 _
  obtain ⟨hmem, hmax⟩ := h.isGreatest_boundariesFrom
  rw [Nat.zero_add, decoded_list_take] at hmem hmax
  rw [decoded_list_take]
  refine ⟨mem_boundariesFrom_filter.1 hmem, ?_⟩
  intro b hb
  exact hmax (mem_boundariesFrom_filter.2 hb)

end Instruction

namespace Listing

open Instruction

theorem ofScript_take (names : SyscallNames) (minimum : Nat) (script : Bytes) {c : Nat}
    (hc : c ≤ script.length) :
    let whole := ofScript names minimum script
    let cut := ofScript names minimum (script.take c)
    let instructions := decoded (list script)
    whole.lines.toList = instructions.map (Line.ofInstruction names) ∧
      cut.lines.toList =
        (instructions.filter fun i => i.next ≤ c).map (Line.ofInstruction names) ∧
      (cut.isComplete = true ↔ c ∈ boundaries script) ∧
      (c ∉ boundaries script → ∃ position opcode needed available,
        cut.truncated = some (.truncated position opcode needed available) ∧
        IsGreatest {b | b ∈ boundaries script ∧ b ≤ c} position ∧
        script[position]? = some opcode.value ∧
        position + 1 + available = c ∧ available < needed) := by
  intro whole cut instructions
  have hlines : cut.lines.toList =
      (instructions.filter fun i => i.next ≤ c).map (Line.ofInstruction names) := by
    rw [toList_lines_ofScript, decoded_list_take]
  have hlength : (script.take c).length = c := List.length_take_of_le hc
  have hgreatest := isGreatest_take script c
  have h : Reads 0 (script.take c) (list (script.take c)) := reads_listFrom 0 _
  refine ⟨toList_lines_ofScript names minimum script, hlines, ?_⟩
  rcases h.fault?_cases with ⟨hnone, hend⟩ | ⟨opcode, needed, available, hfault, hbyte, hend, hlt⟩
  · -- nothing is left of the cut script, so the cut is the last boundary
    have hmem : c ∈ boundaries script := by
      rw [← hlength, hend]
      exact hgreatest.1.1
    have hcomplete : cut.isComplete = true := by
      rw [isComplete, truncated_ofScript, hnone]
      rfl
    exact ⟨iff_of_true hcomplete hmem, fun hnot => absurd hmem hnot⟩
  · rw [hlength] at hend
    rw [Nat.zero_add] at hfault
    generalize hposition : extent (decoded (list (script.take c))) = position at *
    -- the cut is behind the last boundary before it
    have hnot : c ∉ boundaries script := by
      intro hmem
      have := hgreatest.2 ⟨hmem, Nat.le_refl c⟩
      omega
    have htruncated : cut.truncated = some (.truncated position opcode needed available) := hfault
    have hcomplete : ¬cut.isComplete = true := by
      rw [isComplete, htruncated]
      simp
    refine ⟨iff_of_false hcomplete hnot, fun _ => ?_⟩
    refine ⟨position, opcode, needed, available, htruncated, hgreatest, ?_, hend, hlt⟩
    rwa [List.getElem?_take_of_lt (by omega)] at hbyte

/-- A cut into the length of a push, in a script that ends in the middle of its operand. -/
theorem ofScript_take_pushdata :
    let script : Bytes := [0x61, 0x4D, 0x03, 0x00, 0x41]
    let cut := ofScript Interop.noNames 3 (script.take 3)
    3 ≤ script.length ∧ cut.lines.toList = [⟨0, "NOP", "", ""⟩] ∧
      boundaries script = [0, 1] ∧
      ∃ position opcode needed available,
        cut.truncated = some (.truncated position opcode needed available) ∧
        IsGreatest {b | b ∈ boundaries script ∧ b ≤ 3} position ∧
        script[position]? = some opcode.value ∧
        position + 1 + available = 3 ∧ available < needed := by
  intro script cut
  have hc : 3 ≤ script.length := by decide
  obtain ⟨-, hlines, -, hfault⟩ := ofScript_take Interop.noNames 3 script hc
  have hdecoded : decoded (list script) = [⟨0, ⟨0x61⟩, []⟩] := by decide +kernel
  have hboundaries : boundaries script = [0, 1] := by
    rw [boundaries, hdecoded]
    rfl
  refine ⟨hc, ?_, hboundaries, hfault ?_⟩
  · rw [hlines, hdecoded]
    decide +kernel
  · rw [hboundaries]
    decide

end Listing
end ScriptScope

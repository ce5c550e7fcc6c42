import Mathlib.Data.List.Pairwise
import ScriptScope.Frame
import ScriptScope.Proofs.Listing.Cut

/-!
# ScriptScope.Proofs.Listing.Lookup

Finding a line by its address. The search halves the lines, so it relies on their order; a frame
that stops at an address decodes the script there and knows nothing of the lines before it. The two
agree at the addresses at which reading comes by.

* `Reads.pairwise_next_le`: instructions do not overlap, so the addresses of the lines ascend.
* `searchBetween_eq_some_iff`: the search finds the line with an address, among ascending ones.
* `mem_lines_ofScript_iff`: the lines of a listing are those of the instructions that are read.
* `lineAt?_ofScript`: so an address has a line if and only if an instruction is read there. There is
  none inside an instruction, from a fault on, or behind the script.
-/

namespace ScriptScope
namespace Instruction

theorem mem_decoded_iff {items : List (Except DecodeError Instruction)} {i : Instruction} :
    i ∈ decoded items ↔ .ok i ∈ items := by
  rw [decoded, List.mem_filterMap]
  constructor
  · rintro ⟨item, hmem, hitem⟩
    cases item with
    | ok j =>
      cases hitem
      exact hmem
    | error e => cases hitem
  · intro hmem
    exact ⟨_, hmem, rfl⟩

namespace Reads

variable {position : Nat} {bs : Bytes} {items : List (Except DecodeError Instruction)}

/-- Each instruction begins where the ones before it have ended. -/
theorem pairwise_next_le (h : Reads position bs items) :
    (decoded items).Pairwise fun i j => i.next ≤ j.position := by
  induction h with
  | done => exact .nil
  | cut => exact .nil
  | more hadm hr ih => exact .cons hr.le_position_of_mem_decoded ih

/-- What is read ends within the bytes, and in front of the fault if there is one. -/
theorem next_le_of_mem_decoded (h : Reads position bs items) {i : Instruction}
    (hi : i ∈ decoded items) :
    i.next ≤ position + bs.length ∧ ∀ e ∈ fault? items, i.next ≤ e.position := by
  have hend : i.next ≤ position + extent (decoded items) := by
    apply h.isGreatest_boundariesFrom.2
    exact List.mem_cons_of_mem _ (List.mem_map_of_mem hi)
  rcases h.fault?_cases with
    ⟨hnone, hlength⟩ | ⟨opcode, needed, available, hfault, -, hlength, -⟩
  · refine ⟨by omega, ?_⟩
    rw [hnone]
    intro e he
    cases he
  · refine ⟨by omega, ?_⟩
    rw [hfault]
    intro e he
    cases he
    exact hend

/-- No instruction that is read begins inside another one. -/
theorem position_not_inside (h : Reads position bs items) {i j : Instruction}
    (hi : i ∈ decoded items) (hj : j ∈ decoded items) :
    ¬(i.position < j.position ∧ j.position < i.next) := by
  rintro ⟨hlt, hinside⟩
  let apart (a b : Instruction) : Prop := a.next ≤ b.position ∨ b.next ≤ a.position
  have hsymm : Std.Symm apart := ⟨fun _ _ => Or.symm⟩
  have hpairwise : (decoded items).Pairwise apart := h.pairwise_next_le.imp Or.inl
  have hne : i ≠ j := by
    rintro rfl
    omega
  have hjnext := j.position_lt_next
  rcases hpairwise.forall hi hj hne with hle | hle
  · omega
  · omega

end Reads
end Instruction

namespace Listing

/-! ## The search -/

/-- The addresses of the lines ascend. -/
def Ascends (lines : Array Line) : Prop :=
  lines.toList.Pairwise fun l m => l.address < m.address

variable {lines : Array Line} {address low high : Nat} {l : Line}

theorem Ascends.lt (h : Ascends lines) {i j : Nat} (hij : i < j) (hj : j < lines.size) :
    lines[i].address < lines[j].address := by
  have hlt := List.pairwise_iff_getElem.1 h i j (Nat.lt_trans hij hj) hj hij
  rwa [Array.getElem_toList, Array.getElem_toList] at hlt

theorem searchBetween_sound (h : searchBetween lines address low high = some l) :
    l ∈ lines ∧ l.address = address := by
  fun_induction searchBetween lines address low high with
  | case1 low high hrange middle hmiddle line hfound =>
    obtain rfl := Option.some.inj h
    exact ⟨Array.getElem_mem hmiddle, hfound⟩
  | case2 low high hrange middle hmiddle line hne hlt ih => exact ih h
  | case3 low high hrange middle hmiddle line hne hle ih => exact ih h
  | case4 => cases h

/-- Of two lines the one with the smaller address is in front. -/
theorem Ascends.lt_of_address_lt (h : Ascends lines) {i j : Nat} (hi : i < lines.size)
    (hj : j < lines.size) (hlt : lines[i].address < lines[j].address) : i < j := by
  rcases Nat.lt_trichotomy i j with hij | rfl | hij
  · exact hij
  · exact absurd hlt (Nat.lt_irrefl _)
  · exact absurd (Nat.lt_trans hlt (h.lt hij hi)) (Nat.lt_irrefl _)

theorem Ascends.eq_of_address_eq (h : Ascends lines) {i j : Nat} (hi : i < lines.size)
    (hj : j < lines.size) (he : lines[i].address = lines[j].address) : i = j := by
  rcases Nat.lt_trichotomy i j with hij | hij | hij
  · exact absurd he (Nat.ne_of_lt (h.lt hij hj))
  · exact hij
  · exact absurd he.symm (Nat.ne_of_lt (h.lt hij hi))

theorem searchBetween_complete (hasc : Ascends lines) {k : Nat} (hk : k < lines.size)
    (haddress : lines[k].address = address) (hlow : low ≤ k) (hhigh : k < high)
    (hsize : high ≤ lines.size) : searchBetween lines address low high = some lines[k] := by
  subst haddress
  fun_induction searchBetween lines lines[k].address low high with
  | case1 low high hrange middle hmiddle line hfound =>
    obtain rfl : middle = k := hasc.eq_of_address_eq hmiddle hk hfound
    rfl
  | case2 low high hrange middle hmiddle line hne hlt ih =>
    have hmk : middle < k := hasc.lt_of_address_lt hmiddle hk hlt
    exact ih hmk hhigh hsize
  | case3 low high hrange middle hmiddle line hne hle ih =>
    have hkm : k < middle :=
      hasc.lt_of_address_lt hk hmiddle (Nat.lt_of_le_of_ne (Nat.le_of_not_lt hle) (Ne.symm hne))
    exact ih hlow hkm (Nat.le_of_lt hmiddle)
  | case4 low high hrange => exact absurd ⟨Nat.lt_of_le_of_lt hlow hhigh, hsize⟩ hrange

theorem searchBetween_eq_some_iff (hasc : Ascends lines) :
    searchBetween lines address 0 lines.size = some l ↔ l ∈ lines ∧ l.address = address := by
  refine ⟨searchBetween_sound, ?_⟩
  rintro ⟨hmem, rfl⟩
  obtain ⟨k, hk, rfl⟩ := Array.mem_iff_getElem.1 hmem
  exact searchBetween_complete hasc hk rfl (Nat.zero_le k) hk (Nat.le_refl _)

/-! ## Listings of scripts -/

section

open Instruction

variable {names : SyscallNames} {minimum : Nat} {script : Bytes}

theorem mem_lines_ofScript_iff :
    l ∈ (ofScript names minimum script).lines ↔
      ∃ i, .ok i ∈ list script ∧ l = Line.ofInstruction names i := by
  rw [← Array.mem_toList_iff, toList_lines_ofScript, List.mem_map]
  simp only [mem_decoded_iff, eq_comm]

theorem ascends_lines_ofScript (names : SyscallNames) (minimum : Nat) (script : Bytes) :
    Ascends (ofScript names minimum script).lines := by
  have h : Reads 0 script (list script) := reads_listFrom 0 script
  rw [Ascends, toList_lines_ofScript, List.pairwise_map]
  refine h.pairwise_next_le.imp ?_
  intro i j hij
  exact Nat.lt_of_lt_of_le i.position_lt_next hij

theorem lineAt?_ofScript_eq_some_iff :
    (ofScript names minimum script).lineAt? address = some l ↔
      ∃ i, .ok i ∈ list script ∧ i.position = address ∧ l = Line.ofInstruction names i := by
  rw [lineAt?, searchBetween_eq_some_iff (ascends_lines_ofScript names minimum script),
    mem_lines_ofScript_iff]
  constructor
  · rintro ⟨⟨i, hmem, rfl⟩, rfl⟩
    exact ⟨i, hmem, rfl, rfl⟩
  · rintro ⟨i, hmem, rfl, rfl⟩
    exact ⟨⟨i, hmem, rfl⟩, rfl⟩

theorem lineAt?_ofScript_eq_none (h : ∀ i ∈ decoded (list script), i.position ≠ address) :
    (ofScript names minimum script).lineAt? address = none := by
  refine Option.eq_none_iff_forall_ne_some.2 fun l hl => ?_
  obtain ⟨i, hmem, hi, -⟩ := lineAt?_ofScript_eq_some_iff.1 hl
  exact h i (mem_decoded_iff.2 hmem) hi

/-- A frame that stops where an instruction is read shows the line of that instruction. -/
theorem currentLine_of_mem {context : Context} {i : Instruction}
    (hmem : .ok i ∈ list context.script) (hip : i.position = context.ip) :
    Frame.currentLine context names = .ok (Line.ofInstruction names i) := by
  have h : Reads 0 context.script (list context.script) := reads_listFrom 0 context.script
  have hdecode : decode context.script i.position = .ok i := h.decode_place [] rfl _ hmem
  rw [Frame.currentLine, ← hip, hdecode]
  rfl

theorem lineAt?_ofScript (names : SyscallNames) (minimum : Nat) (context : Context) :
    let listing := ofScript names minimum context.script
    listing.lines.toList.Pairwise (fun l m => l.address < m.address) ∧
    (∀ l, listing.lineAt? context.ip = some l ↔
      (∃ i, .ok i ∈ list context.script ∧ i.position = context.ip ∧
        l = Line.ofInstruction names i)) ∧
    (∀ l, listing.lineAt? context.ip = some l → Frame.currentLine context names = .ok l) ∧
    ((∃ i, .ok i ∈ list context.script ∧ i.position < context.ip ∧ context.ip < i.next) ∨
      (∃ fault, listing.truncated = some fault ∧ fault.position ≤ context.ip) ∨
      context.script.length ≤ context.ip → listing.lineAt? context.ip = none) := by
  intro listing
  have h : Reads 0 context.script (list context.script) := reads_listFrom 0 context.script
  refine ⟨ascends_lines_ofScript names minimum context.script,
    fun l => lineAt?_ofScript_eq_some_iff, ?_, ?_⟩
  · intro l hl
    obtain ⟨i, hmem, hi, rfl⟩ := lineAt?_ofScript_eq_some_iff.1 hl
    exact currentLine_of_mem hmem hi
  · intro hoff
    refine lineAt?_ofScript_eq_none fun j hj hip => ?_
    obtain ⟨hlength, hfault⟩ := h.next_le_of_mem_decoded hj
    have hnext := j.position_lt_next
    rcases hoff with ⟨i, hmem, hlt, hinside⟩ | ⟨fault, hcut, hle⟩ | hle
    · rw [← hip] at hlt hinside
      exact h.position_not_inside (mem_decoded_iff.2 hmem) hj ⟨hlt, hinside⟩
    · have := hfault fault hcut
      omega
    · omega

end

/-- A push of two bytes that look like instructions, in front of a jump that is cut off: there is a
line where the push begins, and none in its operand or at the jump. -/
theorem lineAt?_ofScript_pushdata :
    let script : Bytes := [0x61, 0x4D, 0x02, 0x00, 0x61, 0x62, 0x62, 0x05]
    let listing := ofScript Interop.noNames 3 script
    let stopped (ip : Nat) : Context := ⟨.zero, ip, script, [], []⟩
    listing.lineAt? 1 = some ⟨1, "PUSHDATA2", "61-62", "ab"⟩ ∧
      Frame.currentLine (stopped 1) Interop.noNames = .ok ⟨1, "PUSHDATA2", "61-62", "ab"⟩ ∧
      listing.lineAt? 4 = none ∧
      Frame.currentLine (stopped 4) Interop.noNames = .ok ⟨4, "NOP", "", ""⟩ ∧
      listing.lineAt? 6 = none ∧ listing.lineAt? 99 = none := by
  intro script listing stopped
  have hread : Instruction.list script = [.ok ⟨0, ⟨0x61⟩, []⟩, .ok ⟨1, ⟨0x4D⟩, [0x61, 0x62]⟩,
      .error (.truncated 6 ⟨0x62⟩ 2 1)] := by decide +kernel
  obtain ⟨-, hline, hcurrent, -⟩ := lineAt?_ofScript Interop.noNames 3 (stopped 1)
  have hone : listing.lineAt? 1 = some ⟨1, "PUSHDATA2", "61-62", "ab"⟩ := by
    refine (hline _).2 ⟨⟨1, ⟨0x4D⟩, [0x61, 0x62]⟩, ?_, rfl, by decide +kernel⟩
    rw [show (stopped 1).script = script from rfl, hread]
    simp
  have hinside : listing.lineAt? 4 = none := by
    refine (lineAt?_ofScript Interop.noNames 3 (stopped 4)).2.2.2
      (.inl ⟨⟨1, ⟨0x4D⟩, [0x61, 0x62]⟩, ?_⟩)
    rw [show (stopped 4).script = script from rfl, hread]
    exact ⟨by simp, by decide, by decide⟩
  have hcut : listing.lineAt? 6 = none := by
    refine (lineAt?_ofScript Interop.noNames 3 (stopped 6)).2.2.2
      (.inr (.inl ⟨.truncated 6 ⟨0x62⟩ 2 1, ?_, Nat.le_refl 6⟩))
    rw [truncated_ofScript, show (stopped 6).script = script from rfl, hread]
    rfl
  refine ⟨hone, hcurrent _ hone, hinside, by decide +kernel, hcut, ?_⟩
  exact (lineAt?_ofScript Interop.noNames 3 (stopped 99)).2.2.2 (.inr (.inr (by decide)))

end Listing
end ScriptScope

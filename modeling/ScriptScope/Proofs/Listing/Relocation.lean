import Mathlib.Data.List.Forall2
import ScriptScope.Listing
import ScriptScope.Proofs.Script.Locality

/-!
# ScriptScope.Proofs.Listing.Relocation

Listings of scripts that stand one behind the other. `Line.Shifts` says how a line changes when its
instruction moves: its address grows, and so does the address that the comment on a branch shows;
the opcode, the operand and every other comment stay. A line can change in one way only
(`Line.Shifts.unique`).

* `shifts_ofInstruction`: the line of an instruction that moves changes so.
* `ofScript_append`: behind a complete script, another one has its own lines, shifted by the length
  of the first, and its own fault, shifted by as much.
-/

namespace ScriptScope

namespace Opcode

/-- The mnemonics of the opcodes whose comment shows an address. -/
def branchMnemonics : List String :=
  ["JMP", "JMPIF", "JMPIFNOT", "CALL", "CALL_I"]

theorem branch_table : ∀ v : Fin 256,
    let op : Opcode := ⟨UInt8.ofNat v.val⟩
    (op.role = .branch → op.layout = .fixed 2 ∧ op.name ∈ branchMnemonics) ∧
      (op.role = .countedBranch → op.layout = .fixed 4 ∧ op.name ∈ branchMnemonics) := by
  decide +kernel

theorem branchMnemonics_table : ∀ entry ∈ mnemonics, entry.2 ∈ branchMnemonics →
    (⟨entry.1⟩ : Opcode).role = .branch ∨ (⟨entry.1⟩ : Opcode).role = .countedBranch := by
  decide +kernel

variable {op : Opcode}

theorem branch_cases (op : Opcode) :
    (op.role = .branch → op.layout = .fixed 2 ∧ op.name ∈ branchMnemonics) ∧
      (op.role = .countedBranch → op.layout = .fixed 4 ∧ op.name ∈ branchMnemonics) := by
  have htable := branch_table ⟨op.value.toNat, op.value.toNat_lt⟩
  simpa only [UInt8.ofNat_toNat] using htable

theorem layout_of_branch (h : op.role = .branch) : op.layout = .fixed 2 :=
  (op.branch_cases.1 h).1

theorem layout_of_countedBranch (h : op.role = .countedBranch) : op.layout = .fixed 4 :=
  (op.branch_cases.2 h).1

theorem name_mem_branchMnemonics_iff :
    op.name ∈ branchMnemonics ↔ op.role = .branch ∨ op.role = .countedBranch := by
  constructor
  · intro h
    cases hmnemonic : op.mnemonic? with
    | some text =>
      have hname : op.name = text := by simp [name, hmnemonic]
      obtain ⟨before, after, hsplit, -⟩ := List.lookup_eq_some_iff.1 hmnemonic
      have hmem : (op.value, text) ∈ mnemonics := by simp [hsplit]
      rw [hname] at h
      exact branchMnemonics_table _ hmem h
    | none =>
      -- the names of opcodes without a mnemonic begin with other letters
      have hfirst : ∀ text ∈ branchMnemonics,
          text.toList.head? ≠ some 'P' ∧ text.toList.head? ≠ some 'U' := by
        simp [branchMnemonics]
      have hname := hfirst _ h
      simp only [name, hmnemonic] at hname
      split at hname <;> simp at hname
  · rintro (h | h)
    · exact (op.branch_cases.1 h).2
    · exact (op.branch_cases.2 h).2

end Opcode

namespace Annotation

/-- A text that ends in a target ends in one only, and what is in front of it is determined. -/
theorem append_targetField_inj {front front' : String} {target target' : Int}
    (h : front ++ targetField target = front' ++ targetField target') :
    front = front' ∧ target = target' := by
  -- read backwards, the target is what stands in front of the first blank
  have hmark : "position: ".toList = "position:".toList ++ [' '] := by simp
  have hlist (front : String) (target : Int) : (front ++ targetField target).toList.reverse =
      (Decimal.signed target).reverse ++ ' ' :: (front.toList ++ "position:".toList).reverse := by
    simp [targetField, hmark]
  have hblank (target : Int) : ' ' ∉ (Decimal.signed target).reverse := by
    rw [List.mem_reverse]
    exact Decimal.not_mem_signed (by decide) (by decide) target
  have hsplit := congrArg (fun text : String => Text.splitFirst ' ' text.toList.reverse) h
  simp only [hlist, Text.splitFirst_append (hblank _), Option.some.injEq, Prod.mk.injEq,
    List.reverse_inj, List.append_cancel_right_eq, String.toList_inj] at hsplit
  exact ⟨hsplit.2, Decimal.signed_inj hsplit.1⟩

end Annotation

namespace Line

/-- How a line changes when its instruction moves. -/
structure Shifts (distance : Nat) (line moved : Line) : Prop where
  address : moved.address = line.address + distance
  mnemonic : moved.mnemonic = line.mnemonic
  operand : moved.operand = line.operand
  /-- What is in front of the target of a branch stays. -/
  target : line.mnemonic ∈ Opcode.branchMnemonics → ∃ (front : String) (target : Int),
    line.annotation = front ++ Annotation.targetField target ∧
      moved.annotation = front ++ Annotation.targetField (target + distance)
  annotation : line.mnemonic ∉ Opcode.branchMnemonics → moved.annotation = line.annotation

theorem Shifts.unique {distance : Nat} {line moved other : Line} (h : line.Shifts distance moved)
    (h' : line.Shifts distance other) : moved = other := by
  have hannotation : moved.annotation = other.annotation := by
    by_cases hbranch : line.mnemonic ∈ Opcode.branchMnemonics
    · obtain ⟨front, target, hline, hmoved⟩ := h.target hbranch
      obtain ⟨front', target', hline', hother⟩ := h'.target hbranch
      obtain ⟨rfl, rfl⟩ := Annotation.append_targetField_inj (hline.symm.trans hline')
      rw [hmoved, hother]
    · rw [h.annotation hbranch, h'.annotation hbranch]
  have haddress : moved.address = other.address := h.address.trans h'.address.symm
  have hmnemonic : moved.mnemonic = other.mnemonic := h.mnemonic.trans h'.mnemonic.symm
  have hoperand : moved.operand = other.operand := h.operand.trans h'.operand.symm
  cases moved
  cases other
  simp_all

end Line

namespace Annotation

variable (names : SyscallNames) (distance : Nat) {i : Instruction}

theorem ofInstruction_shift_of_not_branch (hbranch : i.opcode.role ≠ .branch)
    (hcounted : i.opcode.role ≠ .countedBranch) :
    ofInstruction names (i.shift distance) = ofInstruction names i := by
  have hopcode : (i.shift distance).opcode = i.opcode := rfl
  have hoperand : (i.shift distance).operand = i.operand := rfl
  unfold ofInstruction
  rw [hopcode, hoperand]
  cases hrole : i.opcode.role with
  | branch => exact absurd hrole hbranch
  | countedBranch => exact absurd hrole hcounted
  | zeroOrFalse => rfl
  | oneOrTrue => rfl
  | literal => rfl
  | contract => rfl
  | countedContract => rfl
  | counts => rfl
  | systemCall => rfl
  | nothing => rfl

theorem ofInstruction_branch (hrole : i.opcode.role = .branch)
    (hlength : i.operand.length = 2) :
    ∃ offset : Int, ∀ distance : Nat,
      ofInstruction names (i.shift distance) = targetField (i.position + offset + distance) := by
  obtain ⟨low, high, hoperand⟩ := List.length_eq_two.1 hlength
  refine ⟨signedPair low high, ?_⟩
  intro distance
  have hopcode : (i.shift distance).opcode.role = .branch := hrole
  have htarget : target? (i.shift distance).position (i.shift distance).operand =
      some (i.position + signedPair low high + distance) := by
    simp only [Instruction.shift, hoperand, target?, Int.natCast_add, Int.add_right_comm]
  unfold ofInstruction
  rw [hopcode]
  simp only [htarget, Option.map_some, Option.getD_some]

theorem ofInstruction_countedBranch (hrole : i.opcode.role = .countedBranch)
    (hlength : i.operand.length = 4) :
    ∃ (front : String) (offset : Int), ∀ distance : Nat,
      ofInstruction names (i.shift distance) =
        front ++ targetField (i.position + offset + distance) := by
  obtain ⟨results, parameters, low, high, hoperand⟩ : ∃ a b c d, i.operand = [a, b, c, d] := by
    match hop : i.operand, hlength with
    | [a, b, c, d], _ => exact ⟨a, b, c, d, rfl⟩
  refine ⟨"rvcount: " ++ toString results.toNat ++ ", " ++
    ("pcount: " ++ toString parameters.toNat) ++ ", ", 2 + signedPair low high, ?_⟩
  intro distance
  have hopcode : (i.shift distance).opcode.role = .countedBranch := hrole
  have htarget : target? ((i.shift distance).position + 2) ((i.shift distance).operand.drop 2) =
      some (i.position + (2 + signedPair low high) + distance) := by
    generalize hoffset : signedPair low high = offset
    simp only [Instruction.shift, hoperand, List.drop_succ_cons, List.drop_zero, target?, hoffset,
      Option.some.injEq]
    omega
  have hsame : (i.shift distance).operand = [results, parameters, low, high] := hoperand
  unfold ofInstruction
  rw [hopcode]
  simp only [htarget, Option.map_some, Option.toList_some]
  rw [hsame, joined_countFields]

end Annotation

namespace Line

theorem shifts_ofInstruction (names : SyscallNames) (distance : Nat) {i : Instruction}
    (hadm : i.opcode.Admits i.operand.length) :
    (ofInstruction names i).Shifts distance (ofInstruction names (i.shift distance)) := by
  have hstay : i.shift 0 = i := rfl
  refine ⟨rfl, rfl, rfl, ?_, ?_⟩
  · intro hmem
    rcases Opcode.name_mem_branchMnemonics_iff.1 hmem with hrole | hrole
    · have hlength : i.operand.length = 2 := by
        simpa only [Opcode.Admits, Opcode.layout_of_branch hrole] using hadm
      obtain ⟨offset, hshift⟩ := Annotation.ofInstruction_branch names hrole hlength
      refine ⟨"", i.position + offset, ?_, ?_⟩
      · simpa [ofInstruction, hstay] using hshift 0
      · simpa [ofInstruction] using hshift distance
    · have hlength : i.operand.length = 4 := by
        simpa only [Opcode.Admits, Opcode.layout_of_countedBranch hrole] using hadm
      obtain ⟨front, offset, hshift⟩ := Annotation.ofInstruction_countedBranch names hrole hlength
      refine ⟨front, i.position + offset, ?_, hshift distance⟩
      simpa [ofInstruction, hstay] using hshift 0
  · intro hmem
    have hbranch : i.opcode.role ≠ .branch :=
      fun hrole => hmem (Opcode.name_mem_branchMnemonics_iff.2 (.inl hrole))
    have hcounted : i.opcode.role ≠ .countedBranch :=
      fun hrole => hmem (Opcode.name_mem_branchMnemonics_iff.2 (.inr hrole))
    exact Annotation.ofInstruction_shift_of_not_branch names distance hbranch hcounted

end Line

namespace Listing

open Instruction

theorem ofScript_append (names : SyscallNames) (minimum : Nat) {script : Bytes}
    (h : (ofScript names minimum script).isComplete = true) (tail : Bytes) :
    let front := ofScript names minimum script
    let back := ofScript names minimum tail
    let whole := ofScript names minimum (script ++ tail)
    (∃ moved : List Line, whole.lines.toList = front.lines.toList ++ moved ∧
      List.Forall₂ (Line.Shifts script.length) back.lines.toList moved ∧
      ∀ other, List.Forall₂ (Line.Shifts script.length) back.lines.toList other →
        other = moved) ∧
      whole.truncated = back.truncated.map (DecodeError.shift script.length) := by
  intro front back whole
  have hnone : fault? (list script) = none := by
    rwa [isComplete, truncated_ofScript, Option.isNone_iff_eq_none] at h
  have hlist := list_append hnone tail
  have hreads : Reads 0 tail (list tail) := reads_listFrom 0 tail
  let moved := ((decoded (list tail)).map (shift script.length)).map (Line.ofInstruction names)
  have hshifts : List.Forall₂ (Line.Shifts script.length) back.lines.toList moved := by
    rw [toList_lines_ofScript, List.forall₂_map_left_iff, List.forall₂_map_right_iff,
      List.forall₂_map_right_iff, List.forall₂_same]
    intro i hi
    exact Line.shifts_ofInstruction names script.length (hreads.admits_of_mem_decoded i hi)
  refine ⟨⟨moved, ?_, hshifts, ?_⟩, ?_⟩
  · rw [toList_lines_ofScript, hlist, decoded_append, decoded_map_shiftItem, List.map_append,
      ← toList_lines_ofScript names minimum]
  · intro other hother
    have hunique : Relator.RightUnique (Line.Shifts script.length) := by
      intro line moved other h h'
      exact h.unique h'
    exact List.right_unique_forall₂' hunique hother hshifts
  · rw [truncated_ofScript, hlist, fault?_append, hnone, fault?_map_shiftItem]
    rfl

/-- A branch that moves by one address, in front of a push that ends in its length. -/
theorem ofScript_append_branches :
    let tail : Bytes := [0x62, 0x03, 0x00, 0x4D, 0x03]
    let front := ofScript Interop.noNames 3 [0x61]
    let back := ofScript Interop.noNames 3 tail
    let whole := ofScript Interop.noNames 3 ([0x61] ++ tail)
    front.isComplete = true ∧ back.lines.toList = [⟨0, "JMP", "03-00", "position: 3"⟩] ∧
      whole.lines.toList = [⟨0, "NOP", "", ""⟩, ⟨1, "JMP", "03-00", "position: 4"⟩] ∧
      whole.truncated = some (.truncated 4 ⟨0x4D⟩ 2 1) := by
  intro tail front back whole
  have hcomplete : front.isComplete = true := by decide +kernel
  have hfront : front.lines.toList = [⟨0, "NOP", "", ""⟩] := by decide +kernel
  have hback : back.lines.toList = [⟨0, "JMP", "03-00", "position: 3"⟩] := by decide +kernel
  obtain ⟨⟨moved, hlines, -, hunique⟩, hfault⟩ := ofScript_append Interop.noNames 3 hcomplete tail
  have hshifts : Line.Shifts 1 ⟨0, "JMP", "03-00", "position: 3"⟩
      ⟨1, "JMP", "03-00", "position: 4"⟩ := by
    refine ⟨rfl, rfl, rfl, fun _ => ⟨"", 3, ?_, ?_⟩, fun hnot => absurd ?_ hnot⟩
    · decide +kernel
    · decide +kernel
    · decide
  have hmoved : [⟨1, "JMP", "03-00", "position: 4"⟩] = moved := by
    apply hunique
    rw [show (ofScript Interop.noNames 3 tail).lines.toList = _ from hback]
    exact .cons hshifts .nil
  refine ⟨hcomplete, hback, ?_, ?_⟩
  · rw [show whole.lines.toList = _ from hlines, ← hmoved]
    exact congrArg (· ++ _) hfront
  · rw [show whole.truncated = _ from hfault]
    decide +kernel

end Listing
end ScriptScope

import ScriptScope.Proofs.Listing.Relocation
import ScriptScope.Proofs.Script.Checked

/-!
# ScriptScope.Proofs.Script.Wrapping

Reading and annotating a script with words of sixty-four bits that wrap around, as a machine
computes when it checks no sum.

Nothing wraps on a script of at most `Checked.maxLength` bytes, at no position: where a checked
computation gives a result the wrapping one gives the same, and the checked one never fails.

* `decode_of_checked`, `comment_of_checked`: a checked result is the wrapped one.
* `exact_of_drop`: the place behind the opcode, every step of putting a length together, and what
  an instruction needs are the numbers that they stand for.
* `lands_of_decode`: an instruction ends inside the script, and its branch leads to a signed word.
* `reads_exactly`: so reading and annotating give what they give over unbounded numbers.
-/

namespace ScriptScope
namespace Wrapping

open Annotation (countFields joined ofInstruction signedPair target? targetField)
open Checked (addSaturating count cut drop? maxLength number take? withNext)

/-! ## Reading -/

/-- Bytes of the whole instruction. -/
def size (i : Instruction) : UInt64 :=
  1 + UInt64.ofNat i.opcode.prefixWidth + count i.operand

section

variable (position : UInt64) (opcode : Opcode) (rest : Bytes)

/-- Reads an operand of `width` bytes that stands behind a length of `front` bytes. -/
def readWidth (front width : UInt64) : Except DecodeError (Instruction × UInt64) :=
  match (drop? front rest).bind (take? width) with
  | none => .error (cut position opcode rest (addSaturating front width))
  | some operand =>
    let i : Instruction := ⟨position.toNat, opcode, operand⟩
    .ok (i, position + size i)

/-- Reads the operand of an opcode from the bytes behind it. -/
def readOperand : Except DecodeError (Instruction × UInt64) :=
  match opcode.layout with
  | .fixed width => readWidth position opcode rest 0 (UInt64.ofNat width)
  | .inline => readWidth position opcode rest 0 opcode.value.toUInt64
  | .prefixed front =>
    match take? (UInt64.ofNat front) rest with
    | none => .error (cut position opcode rest (UInt64.ofNat front))
    | some length => readWidth position opcode rest (UInt64.ofNat front) (number length)

end

/-- The instruction at a position and the position behind it. -/
def decode (script : Bytes) (position : UInt64) : Except DecodeError (Instruction × UInt64) :=
  match script[position.toNat]? with
  | none => .error (.outOfRange position.toNat (count script).toNat)
  | some b => readOperand position ⟨b⟩ (script.drop (position + 1).toNat)

theorem add_of_checked {a b c : UInt64} (h : Checked.add? a b = some c) : a + b = c := by
  unfold Checked.add? at h
  split at h
  · exact Option.some.inj h
  · cases h

theorem size_of_checked {i : Instruction} {n : UInt64} (h : Checked.size? i = some n) :
    size i = n := by
  obtain ⟨front, hfront, hsum⟩ := Option.bind_eq_some_iff.1 h
  rw [size, add_of_checked hfront, add_of_checked hsum]

theorem next_of_checked {position next : UInt64} {i : Instruction}
    (h : Checked.next? position i = some next) : position + size i = next := by
  obtain ⟨n, hsize, hsum⟩ := Option.bind_eq_some_iff.1 h
  rw [size_of_checked hsize, add_of_checked hsum]

section

variable {position : UInt64} {opcode : Opcode} {rest : Bytes}
  {result : Except DecodeError (Instruction × UInt64)}

theorem readWidth_of_checked {front width : UInt64}
    (h : Checked.readWidth? position opcode rest front width = some result) :
    readWidth position opcode rest front width = result := by
  unfold Checked.readWidth? at h
  unfold readWidth
  cases hoperand : (drop? front rest).bind (take? width) with
  | none =>
    simp only [hoperand] at h ⊢
    exact Option.some.inj h
  | some operand =>
    simp only [hoperand] at h ⊢
    obtain ⟨next, hnext, hresult⟩ := Option.map_eq_some_iff.1 h
    rw [next_of_checked hnext, hresult]

theorem readOperand_of_checked (h : Checked.readOperand? position opcode rest = some result) :
    readOperand position opcode rest = result := by
  unfold Checked.readOperand? at h
  unfold readOperand
  cases hlayout : opcode.layout with
  | fixed width =>
    simp only [hlayout] at h ⊢
    exact readWidth_of_checked h
  | inline =>
    simp only [hlayout] at h ⊢
    exact readWidth_of_checked h
  | prefixed front =>
    simp only [hlayout] at h ⊢
    cases hlength : take? (UInt64.ofNat front) rest with
    | none =>
      simp only [hlength] at h ⊢
      exact Option.some.inj h
    | some length =>
      simp only [hlength] at h ⊢
      exact readWidth_of_checked h

theorem drop_of_checked {n : UInt64} {bs rest : Bytes} (h : drop? n bs = some rest) :
    bs.drop n.toNat = rest := by
  unfold drop? at h
  split at h
  · exact Option.some.inj h
  · cases h

theorem decode_of_checked {script : Bytes}
    (h : Checked.decode? script position = some result) : decode script position = result := by
  unfold Checked.decode? at h
  unfold decode
  cases hbyte : script[position.toNat]? with
  | none =>
    simp only [hbyte] at h ⊢
    exact Option.some.inj h
  | some b =>
    simp only [hbyte] at h ⊢
    obtain ⟨behind, hbehind, hrest⟩ := Option.bind_eq_some_iff.1 h
    obtain ⟨rest, hdrop, hread⟩ := Option.bind_eq_some_iff.1 hrest
    rw [add_of_checked hbehind, drop_of_checked hdrop]
    exact readOperand_of_checked hread

end

/-! ## Annotating -/

/-- The signed number of two bytes, least significant first. -/
def offset (low high : UInt8) : Int16 :=
  (high.toUInt16 <<< 8 ||| low.toUInt16).toInt16

/-- The address that a branch leads to, so much further on. -/
def branchTarget (position : UInt64) (extra : Int64) : Bytes → Option Int64
  | low :: high :: _ => some (position.toInt64 + extra + (offset low high).toInt64)
  | _ => none

/-- The comment on an instruction; only the target of a branch is computed. -/
def comment (names : SyscallNames) (i : Instruction) : String :=
  match i.opcode.role with
  | .branch =>
    ((branchTarget (UInt64.ofNat i.position) 0 i.operand).map
      fun target => targetField target.toInt).getD ""
  | .countedBranch =>
    joined (countFields i.operand ++
      ((branchTarget (UInt64.ofNat i.position) 2 (i.operand.drop 2)).map
        fun target => targetField target.toInt).toList)
  | _ => ofInstruction names i

def line (names : SyscallNames) (i : Instruction) : Line where
  address := i.position
  mnemonic := i.opcode.name
  operand := Line.operandText i.operand
  annotation := comment names i

theorem toInt_toInt64 (n : UInt64) : n.toInt64.toInt = Checked.signed n := by
  have hlt : n.toNat < 2 ^ 64 := n.toNat_lt
  have hbits : n.toInt64.toInt = (n.toNat : Int).bmod (2 ^ 64) := by
    rw [← UInt64.toNat_toBitVec, ← BitVec.toInt_eq_toNat_bmod]
    rfl
  rw [hbits, Checked.signed, Int.bmod_def]
  split <;> split <;> omega

theorem toInt_offset (low high : UInt8) : (offset low high).toInt = signedPair low high := by
  have hlow : low.toNat < 2 ^ 8 := low.toNat_lt
  have hhigh : high.toNat < 2 ^ 8 := high.toNat_lt
  have height : (8 : UInt16).toNat % 16 = 8 := rfl
  have hshift : (high.toUInt16 <<< 8).toNat = high.toNat <<< 8 := by
    rw [UInt16.toNat_shiftLeft, height, UInt8.toNat_toUInt16, Nat.shiftLeft_eq]
    omega
  have hpair : (high.toUInt16 <<< 8 ||| low.toUInt16).toNat = low.toNat + 256 * high.toNat := by
    rw [UInt16.toNat_or, hshift, UInt8.toNat_toUInt16, ← Nat.shiftLeft_add_eq_or_of_lt hlow,
      Nat.shiftLeft_eq]
    omega
  have hbits : (offset low high).toInt =
      ((high.toUInt16 <<< 8 ||| low.toUInt16).toNat : Int).bmod 65536 := by
    rw [← UInt16.toNat_toBitVec]
    exact BitVec.toInt_eq_toNat_bmod _
  rw [hbits, hpair]
  exact congrArg (Int.bmod · 65536) (Int.natCast_add _ _)

theorem toInt_add_of_checked {a b : Int64} {c : Int}
    (h : Checked.addSigned? a.toInt b.toInt = some c) : (a + b).toInt = c := by
  unfold Checked.addSigned? at h
  split at h
  · next hrange =>
    cases h
    rw [Int64.toInt_add]
    exact Int.bmod_eq_of_le (by omega) (by omega)
  · cases h

theorem branchTarget_of_checked {position : UInt64} {extra : Int64} {operand : Bytes}
    {target : Option Int} (h : Checked.branchTarget? position extra.toInt operand = some target) :
    (branchTarget position extra operand).map Int64.toInt = target := by
  match operand with
  | [] => exact Option.some.inj h
  | [_] => exact Option.some.inj h
  | low :: high :: rest =>
    obtain ⟨origin, horigin, hsum⟩ := Option.bind_eq_some_iff.1 h
    obtain ⟨sum, hsum, htarget⟩ := Option.map_eq_some_iff.1 hsum
    rw [← toInt_toInt64] at horigin
    rw [← toInt_add_of_checked horigin, ← toInt_offset, ← Int16.toInt_toInt64] at hsum
    rw [branchTarget, Option.map_some, toInt_add_of_checked hsum, htarget]

theorem comment_of_checked {names : SyscallNames} {i : Instruction} {text : String}
    (h : Checked.comment? names i = some text) : comment names i = text := by
  unfold Checked.comment? at h
  unfold comment
  cases hrole : i.opcode.role with
  | branch =>
    simp only [hrole] at h ⊢
    obtain ⟨target, htarget, htext⟩ := Option.map_eq_some_iff.1 h
    rw [← htext, ← @branchTarget_of_checked _ 0 _ _ htarget, Option.map_map]
    rfl
  | countedBranch =>
    simp only [hrole] at h ⊢
    obtain ⟨target, htarget, htext⟩ := Option.map_eq_some_iff.1 h
    rw [← htext, ← @branchTarget_of_checked _ 2 _ _ htarget, Option.map_map]
    rfl
  | _ =>
    simp only [hrole] at h ⊢
    exact Option.some.inj h

theorem line_of_checked {names : SyscallNames} {i : Instruction} {text : Line}
    (h : Checked.line? names i = some text) : line names i = text := by
  obtain ⟨comment, hcomment, hline⟩ := Option.map_eq_some_iff.1 h
  rw [line, comment_of_checked hcomment, hline]

/-! ## Nothing wraps -/

/-- Whether the words on the way to an operand are the numbers that they stand for. -/
structure Exact (position : UInt64) (opcode : Opcode) (rest : Bytes) : Prop where
  behind : (position + 1).toNat = position.toNat + 1
  /-- A length is put together from its last byte on: what there is is shifted, a byte is added. -/
  length : ∀ b high, b :: high <:+ rest.take opcode.prefixWidth →
    (number high <<< 8).toNat = 256 * Bytes.ofLittleEndian high ∧
      (number (b :: high)).toNat = Bytes.ofLittleEndian (b :: high)
  needed : (addSaturating (UInt64.ofNat opcode.prefixWidth)
      (UInt64.ofNat (opcode.operandWidth (rest.take opcode.prefixWidth)))).toNat =
    opcode.prefixWidth + opcode.operandWidth (rest.take opcode.prefixWidth)

/-- How much further on the target of a branch is counted from, and the bytes of its offset. -/
def branch? (i : Instruction) : Option (Nat × Bytes) :=
  match i.opcode.role with
  | .branch => some (0, i.operand)
  | .countedBranch => some (2, i.operand.drop 2)
  | _ => none

/-- Whether an instruction that is read ends inside the script, its words are the numbers that they
stand for, and so is the target of its branch. -/
structure Lands (names : SyscallNames) (script : Bytes) (position : UInt64) (i : Instruction)
    (next : UInt64) : Prop where
  position_eq : i.position = position.toNat
  size_eq : (size i).toNat = i.size
  next_eq : next.toNat = i.next
  advances : position < next
  inside : next.toNat ≤ script.length
  target : ∀ extra bytes, branch? i = some (extra, bytes) →
    (position.toInt64 + Int64.ofNat extra).toInt = i.position + extra ∧
      ∃ target, target? (i.position + extra) bytes = some target ∧
        -2 ^ 63 ≤ target ∧ target < 2 ^ 63 ∧
        (branchTarget position (Int64.ofNat extra) bytes).map Int64.toInt = some target
  line_eq : line names i = Line.ofInstruction names i

/-- The lines of the instructions from a position on, at most so many, ending with the fault if the
last instruction is cut off. -/
def rowsFrom (names : SyscallNames) (script : Bytes) :
    Nat → UInt64 → List (Except DecodeError Line)
  | 0, _ => []
  | n + 1, position =>
    if position.toNat < script.length then
      match decode script position with
      | .error e => [.error e]
      | .ok (i, next) => .ok (line names i) :: rowsFrom names script n next
    else []

section

variable {names : SyscallNames} {script : Bytes} {position : UInt64}

theorem exact_of_drop {opcode : Opcode} {rest : Bytes} (h : script.length < UInt64.size)
    (hdrop : script.drop position.toNat = opcode.value :: rest) :
    Exact position opcode rest := by
  obtain ⟨hfront, -⟩ := Checked.width_le opcode
  have hwidth := Checked.operandWidth_lt opcode rest
  refine ⟨?_, ?_, ?_⟩
  · have hlength := congrArg List.length hdrop
    rw [List.length_drop, List.length_cons] at hlength
    have hbehind : position.toNat + 1 < UInt64.size := by omega
    rw [UInt64.toNat_add]
    exact Nat.mod_eq_of_lt hbehind
  · intro b high hsuffix
    have hlength : high.length + 1 ≤ 4 := by
      have hle := hsuffix.length_le
      rw [List.length_cons, List.length_take] at hle
      omega
    have hnumber : (number high).toNat = Bytes.ofLittleEndian high :=
      Checked.toNat_number (by omega)
    have hlt : (number high).toNat < 256 ^ 7 := by
      rw [hnumber]
      exact Checked.ofLittleEndian_lt_pow (by omega)
    refine ⟨?_, Checked.toNat_number (by rw [List.length_cons]; omega)⟩
    rw [Checked.toNat_shiftLeft_eight hlt, hnumber, Nat.shiftLeft_eq]
    omega
  · generalize opcode.operandWidth (rest.take opcode.prefixWidth) = width at hwidth ⊢
    have hneeded : opcode.prefixWidth + width < UInt64.size :=
      Nat.lt_trans (m := 2 ^ 32 + 4) (by omega) (by decide)
    rw [Checked.addSaturating_ofNat hneeded, UInt64.toNat_ofNat_of_lt' hneeded]

/-- The operand of a branch holds an offset. -/
theorem exists_offset {i : Instruction} (hadm : i.opcode.Admits i.operand.length) {extra : Nat}
    {bytes : Bytes} (h : branch? i = some (extra, bytes)) :
    extra ≤ 2 ∧ ∃ low high, bytes = [low, high] := by
  unfold branch? at h
  cases hrole : i.opcode.role with
  | branch =>
    simp only [hrole] at h
    cases h
    have hlength : i.operand.length = 2 := by
      simpa only [Opcode.Admits, Opcode.layout_of_branch hrole] using hadm
    exact ⟨Nat.zero_le 2, List.length_eq_two.1 hlength⟩
  | countedBranch =>
    simp only [hrole] at h
    cases h
    have hlength : (i.operand.drop 2).length = 2 := by
      have hall : i.operand.length = 4 := by
        simpa only [Opcode.Admits, Opcode.layout_of_countedBranch hrole] using hadm
      rw [List.length_drop, hall]
    exact ⟨Nat.le_refl 2, List.length_eq_two.1 hlength⟩
  | _ =>
    simp only [hrole] at h
    cases h

theorem target_exact (h : position.toNat < maxLength) {extra : Nat} (hextra : extra ≤ 2)
    (low high : UInt8) :
    (position.toInt64 + Int64.ofNat extra).toInt = position.toNat + extra ∧
      ∃ target, target? (position.toNat + extra) [low, high] = some target ∧
        -2 ^ 63 ≤ target ∧ target < 2 ^ 63 ∧
        (branchTarget position (Int64.ofNat extra) [low, high]).map Int64.toInt = some target := by
  obtain ⟨hlow, hhigh⟩ := Checked.signedPair_mem low high
  have hbound : position.toNat < 2 ^ 63 - 2 ^ 16 := h
  have hsmall : (Int64.ofNat extra).toInt = extra := Int64.toInt_ofNat_of_lt (by omega)
  have hsigned : position.toInt64.toInt = position.toNat := by
    rw [toInt_toInt64, Checked.signed, if_pos (by omega)]
  have hchecked := Checked.branchTarget?_eq h hextra [low, high]
  rw [UInt64.ofNat_toNat, ← hsmall] at hchecked
  have htarget : target? (position.toNat + extra) [low, high] =
      some ((position.toNat + extra : Nat) + signedPair low high) := rfl
  refine ⟨?_, _, htarget, by omega, by omega, ?_⟩
  · apply toInt_add_of_checked
    rw [hsigned, hsmall, Checked.addSigned?_eq (by omega) (by omega)]
  · rw [branchTarget_of_checked hchecked, htarget]

/-- Behind the bound a target leaves its range. -/
example : (branchTarget 0x7FFFFFFFFFFFFFFF 2 [0, 0]).map Int64.toInt =
    some (-0x7FFFFFFFFFFFFFFF) := by decide

theorem decode_eq (h : script.length < UInt64.size) (position : UInt64) :
    decode script position = (Instruction.decode script position.toNat).map withNext :=
  decode_of_checked (Checked.decode?_eq h position)

theorem lands_of_decode (h : script.length ≤ maxLength) {i : Instruction} {next : UInt64}
    (hread : decode script position = .ok (i, next)) : Lands names script position i next := by
  have hsize : script.length < UInt64.size := Nat.lt_of_le_of_lt h (by decide)
  have hchecked := Checked.decode?_eq hsize position
  rw [← decode_eq hsize, hread] at hchecked
  obtain ⟨hdecode, hnext⟩ := Checked.decode?_eq_ok hsize hchecked
  obtain ⟨opcode, rest, hdrop, hoperand⟩ := Instruction.decode_eq_ok hdecode
  obtain ⟨hposition, rfl, hadm, -⟩ := Instruction.readOperand_sound hoperand
  obtain ⟨hadvances, hinside⟩ := Checked.next_le_of_decode hdecode
  have hword : UInt64.ofNat i.position = position := by rw [hposition, UInt64.ofNat_toNat]
  have hplace : i.position < maxLength := by omega
  refine ⟨hposition, ?_, hnext, ?_, hnext ▸ hinside, ?_, ?_⟩
  · have hlt : i.size < UInt64.size := by
      rw [Instruction.next] at hinside
      omega
    rw [size_of_checked (Checked.size?_eq hlt), UInt64.toNat_ofNat_of_lt' hlt]
  · rw [UInt64.lt_iff_toNat_lt, hnext]
    exact hadvances
  · intro extra bytes hbranch
    obtain ⟨hextra, low, high, rfl⟩ := exists_offset hadm hbranch
    rw [hposition]
    exact target_exact (hposition ▸ hplace) hextra low high
  · exact line_of_checked (Checked.line?_eq names hplace)

theorem rowsFrom_eq (h : script.length ≤ maxLength) (n : Nat) (position : UInt64) :
    rowsFrom names script n position =
      ((Instruction.listFrom position.toNat (script.drop position.toNat)).take n).map
        (Except.map (Line.ofInstruction names)) := by
  induction n generalizing position with
  | zero => rfl
  | succ n ih =>
    by_cases hinside : position.toNat < script.length
    · have hread := decode_eq (Nat.lt_of_le_of_lt h (by decide)) position
      rw [rowsFrom, if_pos hinside]
      cases hdecode : Instruction.decode script position.toNat with
      | error e =>
        rw [hdecode] at hread
        rw [hread, Checked.listFrom_drop_of_error hinside hdecode]
        simp [Except.map]
      | ok i =>
        rw [hdecode] at hread
        have hlands : Lands names script position i (UInt64.ofNat i.next) := lands_of_decode h hread
        have hnext := ih (UInt64.ofNat i.next)
        rw [hlands.next_eq] at hnext
        rw [hread, Checked.listFrom_drop_of_ok hdecode, List.take_succ_cons, List.map_cons, ← hnext]
        exact congrArg (Except.ok · :: _) hlands.line_eq
    · rw [rowsFrom, if_neg hinside, List.drop_eq_nil_of_le (Nat.le_of_not_lt hinside),
        Instruction.listFrom]
      rfl

end

theorem reads_exactly (names : SyscallNames) {script : Bytes} (h : script.length ≤ maxLength) :
    (∀ position : UInt64,
      decode script position = (Instruction.decode script position.toNat).map withNext ∧
      Checked.decode? script position = some (decode script position) ∧
      (∀ opcode rest, script.drop position.toNat = Opcode.value opcode :: rest →
        Exact position opcode rest) ∧
      ∀ i next, decode script position = .ok (i, next) → Lands names script position i next) ∧
    ∀ n, rowsFrom names script n 0 =
      ((Instruction.list script).take n).map (Except.map (Line.ofInstruction names)) := by
  have hsize : script.length < UInt64.size := Nat.lt_of_le_of_lt h (by decide)
  refine ⟨fun position => ⟨decode_eq hsize position, ?_, ?_, ?_⟩, fun n => rowsFrom_eq h n 0⟩
  · rw [decode_eq hsize, Checked.decode?_eq hsize]
  · intro opcode rest hdrop
    exact exact_of_drop hsize hdrop
  · intro i next hread
    exact lands_of_decode h hread

/-- A literal behind its length and a call that leads in front of the script; the last instruction
is cut off. -/
theorem reads_exactly_backwards :
    let script : Bytes := [0x4D, 1, 0, 7, 0xE0, 1, 2, 0xF0, 0xFF, 0x62, 3]
    let call : Instruction := ⟨4, ⟨0xE0⟩, [1, 2, 0xF0, 0xFF]⟩
    script.length ≤ maxLength ∧
      decode script 4 = .ok (call, 9) ∧
      Lands (fun _ => none) script 4 call 9 ∧
      target? (4 + 2) [0xF0, 0xFF] = some (-10) ∧
      script.drop 0 = Opcode.value ⟨0x4D⟩ :: [1, 0, 7, 0xE0, 1, 2, 0xF0, 0xFF, 0x62, 3] ∧
      Exact 0 ⟨0x4D⟩ [1, 0, 7, 0xE0, 1, 2, 0xF0, 0xFF, 0x62, 3] ∧
      ((Instruction.list script).take 3).map (Except.map (Line.ofInstruction fun _ => none)) =
        [.ok ⟨0, "PUSHDATA2", "07", ""⟩,
          .ok ⟨4, "CALL_I", "01-02-F0-FF", "rvcount: 1, pcount: 2, position: -10"⟩,
          .error (.truncated 9 ⟨0x62⟩ 2 1)] := by
  intro script call
  have hlength : script.length ≤ maxLength := by decide
  obtain ⟨hread, hrows⟩ := reads_exactly (fun _ => none) hlength
  obtain ⟨-, -, hexact, -⟩ := hread 0
  obtain ⟨hdecode, -, -, hlands⟩ := hread 4
  have hcall : decode script 4 = .ok (call, 9) := by
    rw [hdecode]
    decide
  refine ⟨hlength, hcall, hlands call 9 hcall, by decide, rfl, hexact ⟨0x4D⟩ _ rfl, ?_⟩
  rw [← hrows]
  decide

end Wrapping
end ScriptScope

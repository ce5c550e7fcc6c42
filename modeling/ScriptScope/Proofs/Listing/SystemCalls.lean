import ScriptScope.Proofs.Listing.Breaks

/-!
# ScriptScope.Proofs.Listing.SystemCalls

The system calls that a listing names. A call by hash holds the first four bytes of the digest of a
name, and a table of names finds the last one of them whose digest begins so. Both sides read the
four bytes as one number, in the same order, so a name stands on the line of a call only if its
digest begins with the bytes of the operand. Nothing here depends on the digest: it is any function
to thirty-two bytes.

* `Interop.resolve_ofNamesUnder_eq_some_iff`, `Interop.resolve_ofNamesUnder_eq_none_iff`: what a
  table answers to the bytes of an operand.
* `Line.same_ofInstruction`: the one place of a line that depends on the table.
* `ofScript_names`: the system calls of a listing, and listings under two tables.
-/

namespace ScriptScope

open Radix

theorem Bytes.toNat_littleWord {bs : Bytes} (h : bs.length = 4) :
    (littleWord bs).toNat = ofLittleEndian bs := by
  have hlt := ofLittleEndian_lt bs
  rw [h] at hlt
  exact UInt32.toNat_ofNat_of_lt hlt

theorem Bytes.littleWord_inj {bs bs' : Bytes} (h : bs.length = 4) (h' : bs'.length = 4) :
    littleWord bs = littleWord bs' ↔ bs = bs' := by
  refine ⟨fun hword => ?_, congrArg littleWord⟩
  have hnumber : ofLittleEndian bs = ofLittleEndian bs' := by
    rw [← toNat_littleWord h, ← toNat_littleWord h', hword]
  rw [← toLittleEndian_ofLittleEndian bs, ← toLittleEndian_ofLittleEndian bs', h, h', hnumber]

theorem Sha256.length_digest (message : Bytes) : (digest message).length = 32 := by
  simp [digest, List.length_flatMap]

/-! ## Tables -/

namespace Interop

/-- The last of the names that a predicate holds of. -/
def IsLast (p : String → Prop) (names : List String) (name : String) : Prop :=
  ∃ before after, names = before ++ name :: after ∧ p name ∧ ∀ other ∈ after, ¬p other

theorem find?_reverse_eq_some_iff {p : String → Bool} {names : List String} {name : String} :
    names.reverse.find? p = some name ↔ IsLast (fun name => p name = true) names name := by
  rw [List.find?_eq_some_iff_append]
  constructor
  · rintro ⟨hname, front, back, hreverse, hnone⟩
    refine ⟨back.reverse, front.reverse, ?_, hname, by simpa using hnone⟩
    simpa using congrArg List.reverse hreverse
  · rintro ⟨before, after, rfl, hname, hnone⟩
    exact ⟨hname, after.reverse, before.reverse, by simp, by simpa using hnone⟩

variable (digest : Bytes → Bytes)

/-- The hash that a system call carries for a name, by another digest. -/
def hashUnder (name : String) : UInt32 :=
  Bytes.littleWord ((digest (Utf8.encode name)).take 4)

/-- A table of names by the hashes of a digest. -/
def Table.ofNamesUnder (names : List String) : Table :=
  ⟨names.reverse.map fun name => (hashUnder digest name, name)⟩

/-- The digest of a name begins with these bytes. -/
def Carries (operand : Bytes) (name : String) : Prop :=
  operand <+: digest (Utf8.encode name)

theorem ofNamesUnder_digest : Table.ofNamesUnder Sha256.digest = Table.ofNames := rfl

variable {digest} (hdigest : ∀ message, (digest message).length = 32) {operand : Bytes}
  (hoperand : operand.length = 4)

include hdigest hoperand

theorem littleWord_eq_hashUnder_iff (name : String) :
    Bytes.littleWord operand = hashUnder digest name ↔ Carries digest operand name := by
  have htake : ((digest (Utf8.encode name)).take 4).length = 4 := by
    rw [List.length_take, hdigest]
    rfl
  rw [hashUnder, Bytes.littleWord_inj hoperand htake, Carries, List.prefix_iff_eq_take, hoperand]

theorem resolve_ofNamesUnder_eq_some_iff {names : List String} {name : String} :
    (Table.ofNamesUnder digest names).resolve (Bytes.littleWord operand) = some name ↔
      IsLast (Carries digest operand) names name := by
  rw [Table.resolve, Table.ofNamesUnder, lookup_map_eq_find?, find?_reverse_eq_some_iff]
  simp only [beq_iff_eq, littleWord_eq_hashUnder_iff hdigest hoperand]

theorem resolve_ofNamesUnder_eq_none_iff {names : List String} :
    (Table.ofNamesUnder digest names).resolve (Bytes.littleWord operand) = none ↔
      ∀ name ∈ names, ¬Carries digest operand name := by
  rw [Table.resolve, Table.ofNamesUnder, lookup_map_eq_find?, List.find?_eq_none]
  simp only [beq_iff_eq, littleWord_eq_hashUnder_iff hdigest hoperand, List.mem_reverse]

end Interop

/-! ## Lines -/

namespace Annotation

/-- Only the comment on a call by hash depends on the table, and on what it says of that hash. -/
theorem ofInstruction_congr {first second : SyscallNames} {i : Instruction}
    (h : i.IsHashedCall →
      first (Bytes.littleWord i.operand) = second (Bytes.littleWord i.operand)) :
    ofInstruction first i = ofInstruction second i := by
  by_cases hcall : i.opcode.value = 0x68
  · by_cases hlength : i.operand.length = 4
    · rw [ofInstruction_of_isHashedCall first ⟨hcall, hlength⟩,
        ofInstruction_of_isHashedCall second ⟨hcall, hlength⟩, h ⟨hcall, hlength⟩]
    · rw [ofInstruction_of_isNamedCall first ⟨hcall, hlength⟩,
        ofInstruction_of_isNamedCall second ⟨hcall, hlength⟩]
  · have hrole : i.opcode.role ≠ .systemCall :=
      fun hrole => hcall ((Opcode.role_eq_systemCall_iff _).1 hrole)
    unfold ofInstruction
    cases hcase : i.opcode.role with
    | systemCall => exact absurd hcase hrole
    | zeroOrFalse => rfl
    | oneOrTrue => rfl
    | literal => rfl
    | branch => rfl
    | contract => rfl
    | countedBranch => rfl
    | countedContract => rfl
    | counts => rfl
    | nothing => rfl

end Annotation

namespace Line

/-- Lines of one instruction under two tables. -/
structure Same (first second : SyscallNames) (i : Instruction) (line other : Line) : Prop where
  address : line.address = other.address
  mnemonic : line.mnemonic = other.mnemonic
  operand : line.operand = other.operand
  annotation : ¬(i.IsHashedCall ∧
    first (Bytes.littleWord i.operand) ≠ second (Bytes.littleWord i.operand)) →
      line.annotation = other.annotation

theorem same_ofInstruction (first second : SyscallNames) (i : Instruction) :
    Same first second i (ofInstruction first i) (ofInstruction second i) where
  address := rfl
  mnemonic := rfl
  operand := rfl
  annotation := by
    intro h
    refine Annotation.ofInstruction_congr fun hcall => ?_
    exact of_not_not fun hne => h ⟨hcall, hne⟩

end Line

/-! ## Listings -/

namespace Interop

/-- What a listing shows for the four bytes of a call by hash: the last name whose digest begins
with them, or else their number. -/
inductive Shows (digest : Bytes → Bytes) (names : List String) (operand : Bytes) :
    String → Prop where
  | name {name : String} (hlast : IsLast (Carries digest operand) names name) :
    Shows digest names operand name
  | number {digits : List Char} (hnone : ∀ name ∈ names, ¬Carries digest operand name)
    (hlength : digits.length = 8) (hlower : ∀ c ∈ digits, c ∈ "0123456789abcdef".toList)
    (hwrites : hexadecimal.Writes digits (Bytes.ofLittleEndian operand)) :
    Shows digest names operand ("hash: 0x" ++ String.ofList digits)

end Interop

theorem Annotation.shows_ofInstruction {digest : Bytes → Bytes}
    (hdigest : ∀ message, (digest message).length = 32) (names : List String) {i : Instruction}
    (h : i.IsHashedCall) :
    Interop.Shows digest names i.operand
      (ofInstruction (Interop.Table.ofNamesUnder digest names).resolve i) := by
  rw [ofInstruction_of_isHashedCall _ h]
  cases hname : (Interop.Table.ofNamesUnder digest names).resolve
      (Bytes.littleWord i.operand) with
  | some name =>
    exact .name ((Interop.resolve_ofNamesUnder_eq_some_iff hdigest h.2).1 hname)
  | none =>
    have hnone := (Interop.resolve_ofNamesUnder_eq_none_iff hdigest h.2).1 hname
    have hword := (Hex.isWord_iff (w := Bytes.littleWord i.operand)).2 rfl
    rw [Bytes.toNat_littleWord h.2] at hword
    exact .number hnone hword.length hword.lower hword.writes

namespace Listing

theorem ofScript_names {digest : Bytes → Bytes}
    (hdigest : ∀ message, (digest message).length = 32) (names : List String) (minimum : Nat)
    (script : Bytes) :
    let instructions := Instruction.decoded (Instruction.list script)
    let table := Interop.Table.ofNamesUnder digest names
    Interop.Table.ofNamesUnder Sha256.digest = Interop.Table.ofNames ∧
    ((ofScript table.resolve minimum script).lines.toList =
        instructions.map (Line.ofInstruction table.resolve) ∧
      ∀ i ∈ instructions,
        (i.IsHashedCall →
          Interop.Shows digest names i.operand
            (Line.annotation (Line.ofInstruction table.resolve i))) ∧
        (i.IsNamedCall → ∀ resolver : SyscallNames,
          Line.annotation (Line.ofInstruction resolver i) = Utf8.decodeLossy i.operand)) ∧
    ∀ first second : SyscallNames,
      let left := ofScript first minimum script
      let right := ofScript second minimum script
      left.truncated = right.truncated ∧ left.addressWidth = right.addressWidth ∧
        left.lines.toList = instructions.map (Line.ofInstruction first) ∧
        right.lines.toList = instructions.map (Line.ofInstruction second) ∧
        ∀ i ∈ instructions,
          Line.Same first second i (Line.ofInstruction first i) (Line.ofInstruction second i) := by
  intro instructions table
  refine ⟨Interop.ofNamesUnder_digest, ⟨toList_lines_ofScript .., ?_⟩, ?_⟩
  · intro i _
    constructor
    · exact Annotation.shows_ofInstruction hdigest names
    · intro h resolver
      exact Annotation.ofInstruction_of_isNamedCall resolver h
  · intro first second left right
    exact ⟨rfl, rfl, toList_lines_ofScript .., toList_lines_ofScript ..,
      fun i _ => Line.same_ofInstruction first second i⟩

/-- A call by the hash of a name, one by no name's hash, and one by name with a byte that is no part
of a text. -/
theorem ofScript_names_unknown :
    let names := ["Neo.Runtime.Log", "Neo.Runtime.Notify"]
    let script : Bytes := [0x68, 0x04, 0x36, 0xD3, 0x52, 0x06, 0x68, 0x04, 0x01, 0x02, 0x03, 0xA4,
      0x68, 0x05, 0x4C, 0x6F, 0x67, 0xFF, 0x21]
    let listing := ofScript (Interop.Table.ofNames names).resolve 3 script
    (∀ message, (Sha256.digest message).length = 32) ∧
      listing.lines.toList.map Line.annotation =
        ["Neo.Runtime.Log", "hash: 0xa4030201", "Log\uFFFD!"] ∧
      Interop.Shows Sha256.digest names [0x36, 0xD3, 0x52, 0x06] "Neo.Runtime.Log" ∧
      Interop.Shows Sha256.digest names [0x01, 0x02, 0x03, 0xA4] "hash: 0xa4030201" ∧
      ∀ resolver : SyscallNames,
        Line.annotation (Line.ofInstruction resolver ⟨12, ⟨0x68⟩, [0x4C, 0x6F, 0x67, 0xFF, 0x21]⟩) =
          "Log\uFFFD!" := by
  intro names script listing
  obtain ⟨-, ⟨hlines, hcalls⟩, -⟩ := ofScript_names Sha256.length_digest names 3 script
  let known : Instruction := ⟨0, ⟨0x68⟩, [0x36, 0xD3, 0x52, 0x06]⟩
  let unknown : Instruction := ⟨6, ⟨0x68⟩, [0x01, 0x02, 0x03, 0xA4]⟩
  let named : Instruction := ⟨12, ⟨0x68⟩, [0x4C, 0x6F, 0x67, 0xFF, 0x21]⟩
  have hinstructions :
      Instruction.decoded (Instruction.list script) = [known, unknown, named] := by
    decide +kernel
  have hannotations : listing.lines.toList.map Line.annotation =
      ["Neo.Runtime.Log", "hash: 0xa4030201", "Log\uFFFD!"] := by
    decide +kernel
  have htext : Utf8.decodeLossy named.operand = "Log\uFFFD!" := by decide +kernel
  rw [hinstructions] at hlines hcalls
  have htexts := (congrArg (List.map Line.annotation) hlines).symm.trans hannotations
  obtain ⟨hfirst, hrest⟩ := List.cons.inj htexts
  obtain ⟨hsecond, -⟩ := List.cons.inj hrest
  have hknown := (hcalls known (by simp)).1 ⟨rfl, rfl⟩
  have hunknown := (hcalls unknown (by simp)).1 ⟨rfl, rfl⟩
  have hnamed := (hcalls named (by simp)).2 ⟨rfl, by decide⟩
  rw [hfirst] at hknown
  rw [hsecond] at hunknown
  exact ⟨Sha256.length_digest, hannotations, hknown, hunknown,
    fun resolver => (hnamed resolver).trans htext⟩

end Listing
end ScriptScope

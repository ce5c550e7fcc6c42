import ScriptScope.Proofs.Listing.Columns
import ScriptScope.Proofs.ScriptHash.Text

/-!
# ScriptScope.Proofs.Listing.Contracts

The contracts that a listing names. A call by contract shows the hash of the contract in the form in
which hashes are read, so the bytes of its operand can be had back from its comment: all of them, or
those behind the two counts.

* `Annotation.ofInstruction_contract`, `Annotation.ofInstruction_countedContract`: the comments.
* `ScriptHash.parse_text_exact`: script hashes and their texts, in a listing and elsewhere.
-/

namespace ScriptScope

theorem Opcode.role_eq_contract {op : Opcode} (h : op.name ∈ ["APPCALL", "TAILCALL"]) :
    op.role = .contract := by
  simp only [List.mem_cons, List.not_mem_nil, or_false] at h
  rcases h with h | h
  · obtain rfl : op = ⟨0x67⟩ := Opcode.name_inj h
    rfl
  · obtain rfl : op = ⟨0x69⟩ := Opcode.name_inj h
    rfl

theorem Opcode.role_eq_countedContract {op : Opcode} (h : op.name ∈ ["CALL_E", "CALL_ET"]) :
    op.role = .countedContract := by
  simp only [List.mem_cons, List.not_mem_nil, or_false] at h
  rcases h with h | h
  · obtain rfl : op = ⟨0xE1⟩ := Opcode.name_inj h
    rfl
  · obtain rfl : op = ⟨0xE3⟩ := Opcode.name_inj h
    rfl

namespace Annotation

theorem contractText?_bytes (h : ScriptHash) : contractText? h.bytes = some h.text := by
  rw [contractText?, ScriptHash.ofBytes?, dif_pos h.length_eq]
  rfl

variable (names : SyscallNames) {i : Instruction} {h : ScriptHash}

theorem ofInstruction_contract (hrole : i.opcode.role = .contract)
    (hoperand : i.operand = h.bytes) : ofInstruction names i = h.text := by
  rw [ofInstruction, hrole]
  simp only [hoperand, contractText?_bytes, Option.getD_some]

theorem ofInstruction_countedContract (hrole : i.opcode.role = .countedContract)
    {results parameters : UInt8} (hoperand : i.operand = results :: parameters :: h.bytes) :
    ofInstruction names i = "rvcount: " ++ toString results.toNat ++ ", " ++
      ("pcount: " ++ toString parameters.toNat) ++ ", " ++ h.text := by
  have hcontract : contractText? (i.operand.drop 2) = some h.text := by
    rw [hoperand]
    exact contractText?_bytes h
  rw [ofInstruction, hrole]
  simp only [hcontract, Option.toList_some]
  rw [hoperand, joined_countFields]

end Annotation

namespace ScriptHash

theorem parse_text_exact :
    (∀ h : ScriptHash, parse h.text = .ok h ∧
      ∃ digits, h.text.toList = '0' :: 'x' :: digits ∧ digits.length = 40 ∧
        (∀ c ∈ digits, c ∈ "0123456789abcdef".toList) ∧ Hex.Spells digits h.bytes.reverse) ∧
    (∀ names i, i.opcode.name ∈ ["APPCALL", "TAILCALL"] → i.operand.length = 20 →
      ∃ h, parse (Line.annotation (Line.ofInstruction names i)) = .ok h ∧ h.bytes = i.operand) ∧
    (∀ names i, i.opcode.name ∈ ["CALL_E", "CALL_ET"] → i.operand.length = 22 →
      ∃ (results parameters : UInt8) (text : String) (h : ScriptHash),
        i.operand = results :: parameters :: h.bytes ∧
        Line.annotation (Line.ofInstruction names i) =
          "rvcount: " ++ toString results.toNat ++ ", " ++
            ("pcount: " ++ toString parameters.toNat) ++ ", " ++ text ∧
        parse text = .ok h) ∧
    (∀ text,
      ((∃ h, parse text = .ok h) ↔ ∃ digits, Marked text digits ∧ digits.length = 40) ∧
      (∀ n, parse text = .error (.invalidLength n) ↔
        n ≠ 20 ∧ ∃ digits, Marked text digits ∧ digits.length = 2 * n) ∧
      ((∃ fault, parse text = .error (.invalidHex fault)) ↔
        ∀ digits, Marked text digits → digits.length % 2 = 1)) ∧
    ∀ text other digits digits', Marked text digits → digits.length = 40 →
      Marked other digits' → digits'.length = 40 →
      (parse text = parse other ↔ digits.map Char.toLower = digits'.map Char.toLower) := by
  refine ⟨?_, ?_, ?_, ?_, ?_⟩
  · intro h
    have hspells := Hex.spells_encode h.bytes.reverse
    refine ⟨h.parse_text, _, h.text_toList, ?_, Hex.mem_lowerRow_of_mem_encode _, hspells⟩
    rw [hspells.length, List.length_reverse, h.length_eq]
  · intro names i hname hlength
    let h : ScriptHash := ⟨i.operand, hlength⟩
    have htext : Line.annotation (Line.ofInstruction names i) = h.text :=
      Annotation.ofInstruction_contract names (Opcode.role_eq_contract hname) rfl
    exact ⟨h, by rw [htext, parse_text], rfl⟩
  · intro names i hname hlength
    match hoperand : i.operand, hlength with
    | results :: parameters :: bytes, hlength =>
      let h : ScriptHash := ⟨bytes, by simpa using hlength⟩
      refine ⟨results, parameters, h.text, h, rfl, ?_, h.parse_text⟩
      exact Annotation.ofInstruction_countedContract names (Opcode.role_eq_countedContract hname)
        hoperand
  · intro text
    refine ⟨exists_parse_eq_ok_iff, ?_, ?_⟩
    · intro n
      rw [parse_eq_invalidLength_iff, exists_writes_iff]
    · rw [exists_parse_eq_invalidHex_iff, forall_not_writes_iff]
  · intro text other digits digits' h hlength h' hlength'
    exact parse_eq_parse_iff h hlength h' hlength'

/-- Calls of one contract, and its hash in two writings. -/
theorem parse_text_exact_twoWritings :
    let bytes : Bytes := List.replicate 20 0xAB
    let call : Instruction := ⟨0, ⟨0x67⟩, bytes⟩
    let counted : Instruction := ⟨21, ⟨0xE1⟩, 1 :: 2 :: bytes⟩
    let upper := (List.replicate 20 ['A', 'B']).flatten
    let lower := (List.replicate 20 ['a', 'b']).flatten
    (call.opcode.name ∈ ["APPCALL", "TAILCALL"] ∧ call.operand.length = 20 ∧
      ∃ h, parse (Line.annotation (Line.ofInstruction Interop.noNames call)) = .ok h ∧
        h.bytes = bytes) ∧
    (counted.opcode.name ∈ ["CALL_E", "CALL_ET"] ∧ counted.operand.length = 22 ∧
      ∃ text h, Line.annotation (Line.ofInstruction Interop.noNames counted) =
        "rvcount: 1, pcount: 2, " ++ text ∧ parse text = .ok h ∧ h.bytes = bytes) ∧
    Marked (String.ofList ("0x0X".toList ++ upper)) upper ∧ upper.length = 40 ∧
      Marked (String.ofList lower) lower ∧ lower.length = 40 ∧
      parse (String.ofList ("0x0X".toList ++ upper)) = parse (String.ofList lower) := by
  intro bytes call counted upper lower
  obtain ⟨-, hcall, hcounted, -, hcase⟩ := parse_text_exact
  have hupper : Marked (String.ofList ("0x0X".toList ++ upper)) upper :=
    ⟨by decide +kernel, ['0', 'x', '0', 'X'], by simp [markers], String.toList_ofList⟩
  have hlower : Marked (String.ofList lower) lower :=
    ⟨by decide +kernel, [], by simp [markers], String.toList_ofList⟩
  have hsame : upper.map Char.toLower = lower.map Char.toLower := by decide +kernel
  refine ⟨⟨by decide, rfl, hcall Interop.noNames call (by decide) rfl⟩, ⟨by decide, rfl, ?_⟩,
    hupper, rfl, hlower, rfl, (hcase _ _ _ _ hupper rfl hlower rfl).2 hsame⟩
  obtain ⟨results, parameters, text, h, hoperand, htext, hparse⟩ :=
    hcounted Interop.noNames counted (by decide) rfl
  obtain ⟨rfl, hrest⟩ := List.cons.inj hoperand
  obtain ⟨rfl, hbytes⟩ := List.cons.inj hrest
  exact ⟨text, h, htext, hparse, hbytes.symm⟩

/-- A hash is also read behind `0X`. -/
theorem not_parse_behind_lower_markers_only :
    ¬∀ text h, parse text = .ok h → ∃ marker ∈ [[], ['0', 'x'], ['0', 'x', '0', 'x']],
      ∃ digits, Hex.IsRow digits ∧ digits.length = 40 ∧ text.toList = marker ++ digits := by
  intro h
  have hparse : parse "0X5b7074e873973a6ed3708862f219a6fbf4d1c411" =
      .ok ⟨[0x11, 0xC4, 0xD1, 0xF4, 0xFB, 0xA6, 0x19, 0xF2, 0x62, 0x88, 0x70, 0xD3, 0x6E, 0x3A,
        0x97, 0x73, 0xE8, 0x74, 0x70, 0x5B], rfl⟩ := by
    decide +kernel
  obtain ⟨marker, hmarker, digits, hrow, -, htext⟩ := h _ _ hparse
  simp only [List.mem_cons, List.not_mem_nil, or_false] at hmarker
  rcases hmarker with rfl | rfl | rfl
  · rw [List.nil_append] at htext
    subst htext
    exact absurd hrow (by decide +kernel)
  · exact absurd (List.cons.inj (List.cons.inj htext).2).1 (by decide)
  · exact absurd (List.cons.inj (List.cons.inj htext).2).1 (by decide)

end ScriptHash
end ScriptScope

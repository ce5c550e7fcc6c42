import ScriptScope.Proofs.Script.Locality

/-!
# ScriptScope.Proofs.Script.Shortfall

How many bytes an instruction that is cut off is short of. What an opcode calls for comes out in two
steps: while its length is cut off that is the length alone, and behind a whole length it is the
operand as well. So `demand` can grow once while bytes arrive, and only at the end of a length.

* `readOperand_eq`: reading compares the bytes that are there with the demand.
* `demand_append_of_le`, `demand_append_of_lt`: when bytes that arrive leave the demand as it is.
* `decode_append`: an instruction that is read stays as it is when bytes are added; one that is cut
  off stays so until the bytes are there that its fault calls for, and is then read whole, unless
  they were only its length.
-/

namespace ScriptScope
namespace Instruction

/-- The bytes that an opcode calls for, as far as the bytes behind it tell. -/
def demand (opcode : Opcode) (rest : Bytes) : Nat :=
  if rest.length < opcode.prefixWidth then opcode.prefixWidth
  else opcode.prefixWidth + opcode.operandWidth (rest.take opcode.prefixWidth)

section Demand

variable {opcode : Opcode} {rest tail : Bytes}

theorem prefixWidth_le_demand (opcode : Opcode) (rest : Bytes) :
    opcode.prefixWidth ≤ demand opcode rest := by
  unfold demand
  split
  · exact Nat.le_refl _
  · exact Nat.le_add_right _ _

/-- The demand is settled as soon as the length is there. -/
theorem demand_append_of_le (h : opcode.prefixWidth ≤ rest.length) (tail : Bytes) :
    demand opcode (rest ++ tail) = demand opcode rest := by
  have hlength : ¬(rest ++ tail).length < opcode.prefixWidth := by
    rw [List.length_append]
    omega
  rw [demand, demand, if_neg hlength, if_neg (Nat.not_lt.2 h), List.take_append_of_le_length h]

/-- Too few bytes do not change it either. -/
theorem demand_append_of_lt (h : rest.length + tail.length < demand opcode rest) :
    demand opcode (rest ++ tail) = demand opcode rest := by
  by_cases hlength : opcode.prefixWidth ≤ rest.length
  · exact demand_append_of_le hlength tail
  · have hdemand : demand opcode rest = opcode.prefixWidth := if_pos (Nat.not_le.1 hlength)
    rw [hdemand] at h ⊢
    exact if_pos (by rwa [List.length_append])

theorem readOperand_eq (position : Nat) (opcode : Opcode) (rest : Bytes) :
    readOperand position opcode rest =
      if rest.length < demand opcode rest then
        .error (.truncated position opcode (demand opcode rest) rest.length)
      else .ok ⟨position, opcode, (rest.take (demand opcode rest)).drop opcode.prefixWidth⟩ := by
  by_cases hlength : rest.length < opcode.prefixWidth
  · have hdemand : demand opcode rest = opcode.prefixWidth := if_pos hlength
    have htake : (rest.take opcode.prefixWidth).length < opcode.prefixWidth := by
      rw [List.length_take]
      omega
    rw [hdemand, if_pos hlength, readOperand, if_pos htake]
  · have hdemand : demand opcode rest = opcode.prefixWidth +
        opcode.operandWidth (rest.take opcode.prefixWidth) := if_neg hlength
    have htake : ¬(rest.take opcode.prefixWidth).length < opcode.prefixWidth := by
      rw [List.length_take]
      omega
    rw [hdemand, readOperand, if_neg htake, List.drop_take, Nat.add_sub_cancel_left]
    generalize opcode.operandWidth (rest.take opcode.prefixWidth) = width
    -- the operand is short if and only if all bytes together are
    have hshort : ((rest.drop opcode.prefixWidth).take width).length < width ↔
        rest.length < opcode.prefixWidth + width := by
      rw [List.length_take, List.length_drop]
      omega
    simp only [hshort]

end Demand

/-! ## At a position -/

section Decode

variable {script rest : Bytes} {position : Nat} {opcode : Opcode}

theorem decode_of_drop (h : script.drop position = opcode.value :: rest) :
    decode script position = readOperand position opcode rest := by
  rw [decode, h]

theorem drop_append_of_drop (h : script.drop position = opcode.value :: rest) (tail : Bytes) :
    (script ++ tail).drop position = opcode.value :: (rest ++ tail) := by
  have hlength := congrArg List.length h
  rw [List.length_drop, List.length_cons] at hlength
  rw [List.drop_append_of_le_length (by omega), h, List.cons_append]

theorem decode_eq_ok {i : Instruction} (h : decode script position = .ok i) :
    ∃ opcode rest, script.drop position = Opcode.value opcode :: rest ∧
      readOperand position opcode rest = .ok i := by
  unfold decode at h
  split at h
  · cases h
  · next b rest hdrop => exact ⟨⟨b⟩, rest, hdrop, h⟩

theorem decode_eq_truncated {place needed available : Nat}
    (h : decode script position = .error (.truncated place opcode needed available)) :
    place = position ∧ ∃ rest, script.drop position = opcode.value :: rest ∧
      needed = demand opcode rest ∧ available = rest.length ∧ rest.length < demand opcode rest := by
  unfold decode at h
  split at h
  · cases h
  · next b rest hdrop =>
    rw [readOperand_eq] at h
    split at h
    · next hshort =>
      cases h
      exact ⟨rfl, rest, hdrop, rfl, rfl, hshort⟩
    · cases h

theorem decode_append (script : Bytes) (position : Nat) :
    (∀ i, decode script position = .ok i → ∀ tail, decode (script ++ tail) position = .ok i) ∧
    ∀ place opcode needed available,
      decode script position = .error (.truncated place opcode needed available) →
      place = position ∧ position + 1 + available = script.length ∧ available < needed ∧
      (∀ tail, tail.length < needed - available →
        decode (script ++ tail) position =
          .error (.truncated position opcode needed (available + tail.length))) ∧
      (opcode.prefixWidth ≤ available → ∀ tail, needed - available ≤ tail.length →
        ∃ i, decode (script ++ tail) position = .ok i ∧
          i.position = position ∧ i.opcode = opcode ∧ i.next = position + 1 + needed ∧
          script.drop (position + 1 + opcode.prefixWidth) <+: i.operand) := by
  constructor
  · intro i h tail
    obtain ⟨opcode, rest, hdrop, hread⟩ := decode_eq_ok h
    rw [decode_of_drop (drop_append_of_drop hdrop tail), readOperand_append hread]
  · intro place opcode needed available h
    obtain ⟨rfl, rest, hdrop, rfl, rfl, hshort⟩ := decode_eq_truncated h
    have hlength := congrArg List.length hdrop
    rw [List.length_drop, List.length_cons] at hlength
    refine ⟨rfl, by omega, hshort, ?_, ?_⟩
    · intro tail htail
      have hdemand : demand opcode (rest ++ tail) = demand opcode rest :=
        demand_append_of_lt (by omega)
      rw [decode_of_drop (drop_append_of_drop hdrop tail), readOperand_eq, hdemand,
        List.length_append, if_pos (by omega)]
    · intro hprefix tail htail
      have hdemand := demand_append_of_le hprefix tail
      have henough : ¬(rest ++ tail).length < demand opcode rest := by
        rw [List.length_append]
        omega
      have hread := readOperand_eq place opcode (rest ++ tail)
      rw [hdemand, if_neg henough] at hread
      refine ⟨_, (decode_of_drop (drop_append_of_drop hdrop tail)).trans hread, rfl, rfl, ?_, ?_⟩
      · have hle := prefixWidth_le_demand opcode rest
        have htake := Nat.min_eq_left (Nat.not_lt.1 henough)
        simp only [next, size, List.length_drop, List.length_take, htake]
        omega
      · -- what is there of the operand is less than its whole
        have hpresent : script.drop (place + 1 + opcode.prefixWidth) =
            rest.drop opcode.prefixWidth := by
          rw [← List.drop_drop, ← List.drop_drop, hdrop, List.drop_one, List.tail_cons]
        rw [hpresent, List.take_append, List.take_of_length_le (Nat.le_of_lt hshort),
          List.drop_append_of_le_length hprefix]
        exact List.prefix_append _ _

/-- Pushes that are cut off in their length and in their operand, and an instruction in front. -/
theorem decode_append_pushdata :
    decode ([0x4E, 0x03] ++ [0x00]) 0 = .error (.truncated 0 ⟨0x4E⟩ 4 2) ∧
    decode ([0x61, 0x4D, 0x03, 0x00, 0x41] ++ [0x42]) 1 = .error (.truncated 1 ⟨0x4D⟩ 5 4) ∧
    (∃ i, decode ([0x61, 0x4D, 0x03, 0x00, 0x41] ++ [0x42, 0x43, 0x66]) 1 = .ok i ∧
      i.next = 7 ∧ [0x41] <+: i.operand) ∧
    decode ([0x61, 0x4D, 0x03, 0x00, 0x41] ++ [0x42]) 0 = .ok ⟨0, ⟨0x61⟩, []⟩ := by
  have hlength : decode [0x4E, 0x03] 0 = .error (.truncated 0 ⟨0x4E⟩ 4 1) := rfl
  have hcut : decode [0x61, 0x4D, 0x03, 0x00, 0x41] 1 = .error (.truncated 1 ⟨0x4D⟩ 5 3) := rfl
  have hwhole : decode [0x61, 0x4D, 0x03, 0x00, 0x41] 0 = .ok ⟨0, ⟨0x61⟩, []⟩ := rfl
  obtain ⟨-, -, -, hstill, -⟩ := (decode_append _ _).2 _ _ _ _ hlength
  obtain ⟨-, -, -, hmore, henough⟩ := (decode_append _ _).2 _ _ _ _ hcut
  refine ⟨hstill [0x00] (by decide), hmore [0x42] (by decide), ?_,
    (decode_append _ _).1 _ hwhole _⟩
  obtain ⟨i, hread, -, -, hnext, hoperand⟩ := henough (by decide) [0x42, 0x43, 0x66] (by decide)
  exact ⟨i, hread, hnext, hoperand⟩

end Decode
end Instruction
end ScriptScope

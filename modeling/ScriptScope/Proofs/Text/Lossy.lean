import Mathlib.Algebra.Group.Nat.Defs
import Mathlib.Data.List.Infix
import Mathlib.Tactic.SplitIfs
import ScriptScope.Text.Blank
import ScriptScope.Text.Utf8

/-!
# ScriptScope.Proofs.Text.Lossy

The control characters of a text that was read with replacement marks: they are those that the bytes
spell, wherever in the bytes they stand. Neither does a broken character swallow one, nor do the
bytes of a longer character make one.

* `Partial.Sound`: a character in progress becomes no control character, unless its first byte is
  the one that control characters of two bytes have.
* `Scan.follows_step`, `Scan.filter_finish`: what one byte adds, and what all of them add.
* `mem_decodeLossy_iff`, `count_decodeLossy`: the control characters of the text, and its line
  breaks.
-/

namespace ScriptScope
namespace Utf8

/-- The first byte of the control characters that take two. -/
def controlLead : UInt8 := 0xC2

/-- The control character that a byte spells; `lead` says whether the first of two bytes stands in
front of it. -/
def control (lead : Bool) (b : UInt8) : List Char :=
  if Text.isControl (Char.ofNat b.toNat) && (b < 0x80 || lead) then [Char.ofNat b.toNat] else []

/-- The control characters that the bytes spell, in order. -/
def controls (lead : Bool) : Bytes → List Char
  | [] => []
  | b :: bs => control lead b ++ controls (b == controlLead) bs

theorem toNat_lt_of_isControl {c : Char} (h : Text.isControl c = true) : c.toNat < 0xA0 := by
  simp only [Text.isControl, Bool.or_eq_true, Bool.and_eq_true, decide_eq_true_eq] at h
  omega

theorem isControl_ofNat {n : Nat} (h : n.isValidChar) (hn : 0xA0 ≤ n) :
    Text.isControl (Char.ofNat n) = false := by
  rw [Bool.eq_false_iff]
  intro hcontrol
  have hlt := toNat_lt_of_isControl hcontrol
  rw [Text.toNat_ofNat h] at hlt
  exact Nat.not_lt_of_le hn hlt

theorem isControl_replacement : Text.isControl replacement = false := by
  decide

theorem control_false {b : UInt8} (h : 0x80 ≤ b) : control false b = [] := by
  simp [control, UInt8.not_lt.2 h]

theorem beq_controlLead {b : UInt8} (h : b ≤ 0xBF) : (b == controlLead) = false := by
  rw [beq_eq_false_iff_ne]
  rintro rfl
  exact absurd h (by decide)

theorem control_of_le {b : UInt8} (h : 0xA0 ≤ b) (lead : Bool) : control lead b = [] := by
  rw [control, isControl_ofNat (Text.isValidChar_byte b) (UInt8.le_iff_toNat_le.1 h)]
  rfl

theorem control_true_of_not_taken {b : UInt8} (h : ¬(0x80 ≤ b ∧ b ≤ 0xBF)) :
    control true b = control false b := by
  by_cases hb : b < 0x80
  · simp [control, hb]
  · have hle : 0xA0 ≤ b := by
      simp only [UInt8.lt_iff_toNat_lt, UInt8.le_iff_toNat_le, UInt8.toNat_ofNat] at *
      omega
    rw [control_of_le hle, control_of_le hle]

/-! ## Characters in progress -/

namespace Partial

/-- The least number that the bytes to come can make. -/
def least (p : Partial) : Nat :=
  (p.bits * 0x40 + p.low.toNat % 0x40) * 0x40 ^ (p.owed - 1)

/-- The bound of the numbers that the bytes to come can make. -/
def limit (p : Partial) : Nat :=
  (p.bits * 0x40 + p.high.toNat % 0x40 + 1) * 0x40 ^ (p.owed - 1)

/-- A character in progress that becomes no control character, and that takes neither a byte that is
a character by itself nor one that begins a control character. -/
structure Sound (p : Partial) : Prop where
  owed : 0 < p.owed
  low : 0x80 ≤ p.low
  high : p.high ≤ 0xBF
  clear : ∀ n, p.least ≤ n → n < p.limit → n.isValidChar ∧ 0xA0 ≤ n

/-- The character in progress behind the first byte of a control character. -/
def ofControl : Partial := ⟨1, 0x80, 0xBF, 2⟩

theorem ofLead_controlLead : ofLead controlLead = some ofControl := rfl

theorem sound_of_ofLead {b : UInt8} {p : Partial} (h : ofLead b = some p)
    (hb : b ≠ controlLead) : p.Sound := by
  rw [controlLead, ← UInt8.toNat_inj.ne] at hb
  unfold ofLead at h
  simp only [UInt8.le_iff_toNat_le, ← UInt8.toNat_inj, UInt8.toNat_ofNat] at h hb
  split_ifs at h <;> cases h
  all_goals
    refine ⟨by simp, by simp, by simp, fun n hn hn' => ?_⟩
    simp only [least, limit, UInt8.toNat_ofNat] at hn hn'
    omega

/-- What a byte leaves of a character that is not finished by it. -/
def next (p : Partial) (b : UInt8) : Partial :=
  ⟨p.owed - 1, 0x80, 0xBF, p.bits * 0x40 + b.toNat % 0x40⟩

theorem least_next {p : Partial} (howed : 1 < p.owed) (b : UInt8) :
    (p.next b).least = (p.bits * 0x40 + b.toNat % 0x40) * 0x40 ^ (p.owed - 1) := by
  have hpow : p.owed - 1 = p.owed - 1 - 1 + 1 := by omega
  rw [hpow, Nat.pow_succ', ← Nat.mul_assoc]
  simp [least, next]

theorem limit_next {p : Partial} (howed : 1 < p.owed) (b : UInt8) :
    (p.next b).limit = (p.bits * 0x40 + b.toNat % 0x40 + 1) * 0x40 ^ (p.owed - 1) := by
  have hpow : p.owed - 1 = p.owed - 1 - 1 + 1 := by omega
  rw [hpow, Nat.pow_succ', ← Nat.mul_assoc]
  simp only [limit, next, UInt8.toNat_ofNat]
  congr 1
  omega

/-- A byte that is taken gives six bits between those of the two ends. -/
theorem Sound.bits_mem {p : Partial} (h : p.Sound) {b : UInt8} (hlow : p.low ≤ b)
    (hhigh : b ≤ p.high) :
    p.low.toNat % 0x40 ≤ b.toNat % 0x40 ∧ b.toNat % 0x40 ≤ p.high.toNat % 0x40 := by
  have hleast := h.low
  have hgreatest := h.high
  simp only [UInt8.le_iff_toNat_le, UInt8.toNat_ofNat] at *
  omega

theorem Sound.last {p : Partial} (h : p.Sound) {b : UInt8} (howed : p.owed ≤ 1) (hlow : p.low ≤ b)
    (hhigh : b ≤ p.high) :
    (p.bits * 0x40 + b.toNat % 0x40).isValidChar ∧ 0xA0 ≤ p.bits * 0x40 + b.toNat % 0x40 := by
  have hbits := h.bits_mem hlow hhigh
  have hpow : 0x40 ^ (p.owed - 1) = 1 := by rw [Nat.sub_eq_zero_of_le howed, Nat.pow_zero]
  apply h.clear
  · rw [least, hpow]
    omega
  · rw [limit, hpow]
    omega

theorem Sound.next {p : Partial} (h : p.Sound) {b : UInt8} (howed : 1 < p.owed) (hlow : p.low ≤ b)
    (hhigh : b ≤ p.high) : (p.next b).Sound := by
  have hbits := h.bits_mem hlow hhigh
  have hleast : p.least ≤ (p.next b).least := by
    rw [least_next howed]
    exact Nat.mul_le_mul_right _ (by omega)
  have hlimit : (p.next b).limit ≤ p.limit := by
    rw [limit_next howed]
    exact Nat.mul_le_mul_right _ (by omega)
  exact
    { owed := Nat.sub_pos_of_lt howed
      low := by simp [Partial.next]
      high := by simp [Partial.next]
      clear := fun n hn hn' => h.clear n (hleast.trans hn) (hn'.trans_le hlimit) }

end Partial

/-! ## The reading -/

namespace Scan

/-- What is in progress behind a byte that is the first of a control character, or not. -/
def Awaits (lead : Bool) (s : Scan) : Prop :=
  if lead then s.pending = some .ofControl else ∀ p ∈ s.pending, p.Sound

/-- Where the reading stands behind a byte, and the control character that the byte has added. -/
structure Follows (lead : Bool) (text : String) (b : UInt8) (s : Scan) : Prop where
  awaits : s.Awaits (b == controlLead)
  filter_eq : s.text.toList.filter Text.isControl =
    text.toList.filter Text.isControl ++ control lead b

theorem follows_first (text : String) (b : UInt8) : Follows false text b (first text b) := by
  unfold first
  split
  · next hb =>
    have hlead := beq_controlLead (UInt8.le_of_lt (UInt8.lt_of_lt_of_le hb (by decide)))
    constructor
    · simp [Awaits, hlead]
    · simp [control, hb, String.toList_push, List.filter_append, List.filter_cons]
  · next hb =>
    have hnone := control_false (UInt8.not_lt.1 hb)
    by_cases hlead : b = controlLead
    · subst hlead
      rw [Partial.ofLead_controlLead]
      exact ⟨by simp [Awaits], by simp [hnone]⟩
    · cases hp : Partial.ofLead b with
      | none =>
        exact ⟨by simp [Awaits, hlead],
          by simp [hnone, String.toList_push, isControl_replacement]⟩
      | some p =>
        exact ⟨by simpa [Awaits, hlead] using Partial.sound_of_ofLead hp hlead, by simp [hnone]⟩

/-- A character that breaks off is a replacement mark, and takes nothing of the next byte. -/
theorem follows_first_push (text : String) (b : UInt8) :
    Follows false text b (first (text.push replacement) b) := by
  refine ⟨(follows_first _ b).awaits, ?_⟩
  rw [(follows_first _ b).filter_eq, String.toList_push, List.filter_append,
    List.filter_cons_of_neg (by simp [isControl_replacement]), List.filter_nil, List.append_nil]

section

variable {s : Scan} {p : Partial} {b : UInt8}

theorem step_of_not_taken (h : s.pending = some p) (hb : ¬(p.low ≤ b ∧ b ≤ p.high)) :
    s.step b = first (s.text.push replacement) b := by
  rw [step, h]
  exact if_neg hb

theorem step_of_last (h : s.pending = some p) (hb : p.low ≤ b ∧ b ≤ p.high) (howed : p.owed ≤ 1) :
    s.step b = ⟨s.text.push (Char.ofNat (p.bits * 0x40 + b.toNat % 0x40)), none⟩ := by
  rw [step, h]
  simp only [if_pos hb, if_pos howed]

theorem step_of_next (h : s.pending = some p) (hb : p.low ≤ b ∧ b ≤ p.high) (howed : 1 < p.owed) :
    s.step b = ⟨s.text, some (p.next b)⟩ := by
  rw [step, h]
  simp only [if_pos hb, if_neg (Nat.not_le_of_lt howed)]
  rfl

end

theorem follows_step_control {s : Scan} (h : s.pending = some .ofControl) (b : UInt8) :
    Follows true s.text b (s.step b) := by
  by_cases hb : 0x80 ≤ b ∧ b ≤ 0xBF
  · have hnumber : 2 * 0x40 + b.toNat % 0x40 = b.toNat := by
      simp only [UInt8.le_iff_toNat_le, UInt8.toNat_ofNat] at hb
      omega
    rw [step_of_last h hb le_rfl, Partial.ofControl, hnumber]
    constructor
    · simp [Awaits, beq_controlLead hb.2]
    · simp [control, String.toList_push, List.filter_cons]
  · obtain ⟨hawaits, hfilter⟩ := follows_first_push s.text b
    rw [step_of_not_taken h hb]
    exact ⟨hawaits, hfilter.trans (by rw [control_true_of_not_taken hb])⟩

theorem follows_step_sound {s : Scan} {p : Partial} (h : s.pending = some p) (hp : p.Sound)
    (b : UInt8) : Follows false s.text b (s.step b) := by
  by_cases hb : p.low ≤ b ∧ b ≤ p.high
  · have hlead : (b == controlLead) = false := beq_controlLead (UInt8.le_trans hb.2 hp.high)
    have hnone := control_false (UInt8.le_trans hp.low hb.1)
    by_cases howed : p.owed ≤ 1
    · obtain ⟨hvalid, hclear⟩ := hp.last howed hb.1 hb.2
      rw [step_of_last h hb howed]
      constructor
      · simp [Awaits, hlead]
      · simp [hnone, String.toList_push, isControl_ofNat hvalid hclear]
    · have howed := Nat.lt_of_not_le howed
      rw [step_of_next h hb howed]
      constructor
      · simpa [Awaits, hlead] using hp.next howed hb.1 hb.2
      · simp [hnone]
  · rw [step_of_not_taken h hb]
    exact follows_first_push _ b

theorem follows_step {lead : Bool} {s : Scan} (h : s.Awaits lead) (b : UInt8) :
    Follows lead s.text b (s.step b) := by
  cases lead with
  | true => exact follows_step_control h b
  | false =>
    cases hpending : s.pending with
    | none =>
      rw [step, hpending]
      exact follows_first s.text b
    | some p => exact follows_step_sound hpending (h p hpending) b

theorem filter_finish {lead : Bool} {s : Scan} (h : s.Awaits lead) (bs : Bytes) :
    (bs.foldl step s).finish.toList.filter Text.isControl =
      s.text.toList.filter Text.isControl ++ controls lead bs := by
  induction bs generalizing s lead with
  | nil =>
    rw [List.foldl_nil, finish, controls, List.append_nil]
    split
    · simp [String.toList_push, isControl_replacement]
    · rfl
  | cons b bs ih =>
    obtain ⟨hnext, htext⟩ := follows_step h b
    rw [List.foldl_cons, ih hnext, htext, controls, List.append_assoc]

end Scan

theorem filter_decodeLossy (bs : Bytes) :
    (decodeLossy bs).toList.filter Text.isControl = controls false bs := by
  have h : Scan.Awaits false ⟨"", none⟩ := by simp [Scan.Awaits]
  exact Scan.filter_finish h bs

/-! ## Where the bytes spell a control character -/

theorem encode_singleton {c : Char} (h : Text.isControl c = true) :
    encode (String.singleton c) =
      if c.toNat < 0x80 then [UInt8.ofNat c.toNat] else [controlLead, UInt8.ofNat c.toNat] := by
  rw [String.singleton_eq_ofList, encode_ofList, List.flatMap_singleton]
  by_cases hone : c.toNat < 0x80
  · rw [if_pos hone]
    exact if_pos (Nat.le_of_lt_succ hone)
  · have hlt := toNat_lt_of_isControl h
    have hlong : ¬c.toNat ≤ 127 := by omega
    have htwo : c.toNat ≤ 2047 := by omega
    have hfirst : c.toNat / 64 % 32 + 192 = 0xC2 := by omega
    have hsecond : c.toNat % 64 + 128 = c.toNat := by omega
    rw [if_neg hone]
    calc String.utf8EncodeChar c
        = [UInt8.ofNat (c.toNat / 64 % 32 + 192), UInt8.ofNat (c.toNat % 64 + 128)] :=
          (if_neg hlong).trans (if_pos htwo)
      _ = [controlLead, UInt8.ofNat c.toNat] := by rw [hfirst, hsecond]; rfl

theorem mem_control_iff {lead : Bool} {b : UInt8} {c : Char} (h : Text.isControl c = true) :
    c ∈ control lead b ↔ b = UInt8.ofNat c.toNat ∧ (c.toNat < 0x80 ∨ lead = true) := by
  have hbyte : (UInt8.ofNat c.toNat).toNat = c.toNat := by
    have hlt := toNat_lt_of_isControl h
    rw [UInt8.toNat_ofNat', Nat.mod_eq_of_lt (by omega)]
  have hchar : c = Char.ofNat b.toNat ↔ b = UInt8.ofNat c.toNat := by
    constructor
    · rintro rfl
      rw [Text.toNat_ofNat (Text.isValidChar_byte b), UInt8.ofNat_toNat]
    · rintro rfl
      rw [hbyte, Char.ofNat_toNat]
  rw [control, List.mem_ite_nil_right, List.mem_singleton, hchar, and_comm]
  refine and_congr_right ?_
  rintro rfl
  simp [hbyte, h, UInt8.lt_iff_toNat_lt]

theorem mem_controls_iff {lead : Bool} {bs : Bytes} {c : Char} (h : Text.isControl c = true) :
    c ∈ controls lead bs ↔ encode (String.singleton c) <:+: bs ∨
      lead = true ∧ 0x80 ≤ c.toNat ∧ bs.head? = some (UInt8.ofNat c.toNat) := by
  rw [encode_singleton h]
  induction bs generalizing lead with
  | nil => split <;> simp [controls]
  | cons b bs ih =>
    rw [controls, List.mem_append, mem_control_iff h, ih, List.infix_cons_iff, List.head?_cons,
      Option.some_inj, beq_iff_eq]
    by_cases hone : c.toNat < 0x80
    · have hshort : ¬0x80 ≤ c.toNat := Nat.not_le_of_lt hone
      simp only [if_pos hone, List.cons_prefix_cons, List.nil_prefix]
      grind
    · have hlong : 0x80 ≤ c.toNat := Nat.le_of_not_lt hone
      simp only [if_neg hone, List.cons_prefix_cons, List.singleton_prefix_iff_head?_eq_some]
      grind

theorem count_controls (lead : Bool) (bs : Bytes) :
    (controls lead bs).count '\n' = bs.count 0x0A := by
  have hone : ∀ lead b, (control lead b).count '\n' = if b = 0x0A then 1 else 0 := by
    intro lead b
    split
    · next hb =>
      subst hb
      rfl
    · next hb =>
      refine List.count_eq_zero.2 fun hmem => hb ?_
      exact ((mem_control_iff (by decide)).1 hmem).1
  induction bs generalizing lead with
  | nil => rfl
  | cons b bs ih =>
    rw [controls, List.count_append, ih, hone, List.count_cons, Nat.add_comm]
    simp

/-- A control character stands in the text if and only if its bytes stand together somewhere. -/
theorem mem_decodeLossy_iff {bs : Bytes} {c : Char} (h : Text.isControl c = true) :
    c ∈ (decodeLossy bs).toList ↔ encode (String.singleton c) <:+: bs := by
  have hmem : c ∈ (decodeLossy bs).toList.filter Text.isControl ↔ c ∈ controls false bs := by
    rw [filter_decodeLossy]
  simpa [mem_controls_iff, h] using hmem

theorem count_decodeLossy (bs : Bytes) : (decodeLossy bs).toList.count '\n' = bs.count 0x0A := by
  rw [← List.count_filter (p := Text.isControl) (by decide), filter_decodeLossy, count_controls]

end Utf8
end ScriptScope

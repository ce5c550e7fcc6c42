import Mathlib.Data.List.Forall2
import Mathlib.Data.Nat.Digits.Defs
import ScriptScope.Text.Blank
import ScriptScope.Text.Hex

/-!
# ScriptScope.Proofs.Text.Numerals

Which number a text writes, said without a reader: `Radix.Writes` looks every character up in a row
of digits and weighs the places by the powers of the base.

* `readDigits_eq_some_iff`: the decimal reader takes the texts that write a number below its limit.
* `value?_eq_some_iff`: the hexadecimal reader takes the texts that write a number at all.
* `Radix.Writes.lt`: a number has no more than the digits that are written.
* `Radix.Writes.digits_unique`: as many digits write it in one way only.
-/

namespace ScriptScope

/-- A base, and the rows in which each digit stands at its own value. -/
structure Radix where
  base : Nat
  rows : List String
  fits : 1 < base ∧ ∀ row ∈ rows, row.toList.length ≤ base

namespace Radix

def decimal : Radix where
  base := 10
  rows := ["0123456789"]
  fits := by decide

/-- Base sixteen, with digits of either case. -/
def hexadecimal : Radix where
  base := 16
  rows := ["0123456789abcdef", "0123456789ABCDEF"]
  fits := by decide

def IsDigit (radix : Radix) (c : Char) (d : Nat) : Prop :=
  ∃ row ∈ radix.rows, row.toList[d]? = some c

instance (radix : Radix) (c : Char) (d : Nat) : Decidable (radix.IsDigit c d) :=
  inferInstanceAs (Decidable (∃ row ∈ radix.rows, row.toList[d]? = some c))

/-- A text writes a number, its most significant digit first. -/
def Writes (radix : Radix) (cs : List Char) (n : Nat) : Prop :=
  ∃ ds, List.Forall₂ radix.IsDigit cs ds ∧ n = Nat.ofDigits radix.base ds.reverse

theorem ofDigits_reverse (base : Nat) (ds : List Nat) :
    Nat.ofDigits base ds.reverse = ds.foldl (fun n d => base * n + d) 0 := by
  rw [Nat.ofDigits_eq_foldr, List.foldr_reverse]
  congr 1
  funext n d
  exact Nat.add_comm d (base * n)

variable {radix : Radix} {cs : List Char} {n : Nat}

theorem IsDigit.lt {c : Char} {d : Nat} (h : radix.IsDigit c d) : d < radix.base := by
  obtain ⟨row, hrow, hd⟩ := h
  have hlt := (List.getElem?_eq_some_iff.1 hd).1
  have hle := radix.fits.2 row hrow
  omega

/-- What is so of every character in the rows is so of a digit. -/
theorem IsDigit.of_rows {p : Char → Bool} {c : Char} {d : Nat} (h : radix.IsDigit c d)
    (hrows : (radix.rows.all fun row => row.toList.all p) = true) : p c = true := by
  obtain ⟨row, hrow, hc⟩ := h
  exact List.all_eq_true.1 (List.all_eq_true.1 hrows row hrow) c (List.mem_of_getElem? hc)

theorem lt_of_mem_digits {ds : List Nat} (h : List.Forall₂ radix.IsDigit cs ds) :
    ∀ d ∈ ds.reverse, d < radix.base := by
  intro d hd
  rw [List.mem_reverse] at hd
  induction h with
  | nil => cases hd
  | cons hdigit _ ih =>
    rcases List.mem_cons.1 hd with rfl | hd
    · exact hdigit.lt
    · exact ih hd

theorem Writes.lt (h : radix.Writes cs n) : n < radix.base ^ cs.length := by
  obtain ⟨ds, hds, rfl⟩ := h
  rw [hds.length_eq, ← List.length_reverse]
  exact Nat.ofDigits_lt_base_pow_length radix.fits.1 (lt_of_mem_digits hds)

/-- As many digits write a number in one way only. -/
theorem Writes.digits_unique {cs' : List Char} (hlength : cs.length = cs'.length)
    (h : radix.Writes cs n) (h' : radix.Writes cs' n) :
    ∃ ds, List.Forall₂ radix.IsDigit cs ds ∧ List.Forall₂ radix.IsDigit cs' ds := by
  obtain ⟨ds, hds, hn⟩ := h
  obtain ⟨ds', hds', hn'⟩ := h'
  have hlen : ds.reverse.length = ds'.reverse.length := by
    rw [List.length_reverse, List.length_reverse, ← hds.length_eq, ← hds'.length_eq, hlength]
  have hreverse := Nat.ofDigits_inj_of_len_eq radix.fits.1 hlen (lt_of_mem_digits hds)
    (lt_of_mem_digits hds') (hn.symm.trans hn')
  obtain rfl := List.reverse_inj.1 hreverse
  exact ⟨ds, hds, hds'⟩

/-- What is so of every digit is so of every character that is written. -/
theorem Writes.forall_mem {p : Char → Bool} (h : radix.Writes cs n)
    (hrows : (radix.rows.all fun row => row.toList.all p) = true) : ∀ c ∈ cs, p c = true := by
  obtain ⟨ds, hds, -⟩ := h
  induction hds with
  | nil => simp
  | cons hd _ ih => simpa using ⟨hd.of_rows hrows, ih⟩

theorem Writes.not_mem {mark : Char} (h : radix.Writes cs n)
    (hrows : (radix.rows.all fun row => row.toList.all (· != mark)) = true) : mark ∉ cs := by
  intro hmem
  simpa using h.forall_mem hrows mark hmem

theorem Writes.not_isBlank (h : radix.Writes cs n)
    (hrows : (radix.rows.all fun row => row.toList.all (!Text.isBlank ·)) = true) :
    ∀ c ∈ cs, Text.isBlank c = false := by
  intro c hc
  simpa using h.forall_mem hrows c hc

end Radix

open Radix

/-! ## Decimal -/

namespace Decimal

theorem isDigit_decimal_iff {c : Char} {d : Nat} :
    decimal.IsDigit c d ↔ c.isDigit = true ∧ d = c.toNat - '0'.toNat := by
  have hrow : ∀ d, d < 10 → "0123456789".toList[d]? = some (Char.ofNat (48 + d)) := by decide
  constructor
  · intro h
    have hlt : d < 10 := h.lt
    obtain ⟨row, hmem, hd⟩ := h
    obtain rfl := List.mem_singleton.1 hmem
    obtain rfl := Option.some.inj ((hrow d hlt).symm.trans hd)
    have hdigit : ∀ d, d < 10 → (Char.ofNat (48 + d)).isDigit = true ∧
        d = (Char.ofNat (48 + d)).toNat - '0'.toNat := by decide
    exact hdigit d hlt
  · rintro ⟨hdigit, rfl⟩
    have hrange : 48 ≤ c.toNat ∧ c.toNat ≤ 57 := by
      simpa [Char.isDigit, UInt32.le_iff_toNat_le] using hdigit
    refine ⟨_, List.mem_singleton_self _, ?_⟩
    have hzero : '0'.toNat = 48 := rfl
    rw [hzero, hrow _ (by omega), Nat.add_sub_cancel' hrange.1, Char.ofNat_toNat]

theorem ofDigitChars_eq_iff {cs : List Char} {a n : Nat} :
    cs.all Char.isDigit = true ∧ Nat.ofDigitChars 10 cs a = n ↔
      ∃ ds, List.Forall₂ decimal.IsDigit cs ds ∧ ds.foldl (fun n d => 10 * n + d) a = n := by
  induction cs generalizing a with
  | nil => simp [Nat.ofDigitChars]
  | cons c cs ih =>
    have hstep : Nat.ofDigitChars 10 (c :: cs) a =
        Nat.ofDigitChars 10 cs (10 * a + (c.toNat - '0'.toNat)) := rfl
    rw [hstep, List.all_cons, Bool.and_eq_true, and_assoc, ih]
    constructor
    · rintro ⟨hc, ds, hds, hn⟩
      exact ⟨_ :: ds, .cons (isDigit_decimal_iff.2 ⟨hc, rfl⟩) hds, hn⟩
    · rintro ⟨_, ⟨⟩ | ⟨hc, hds⟩, hn⟩
      obtain ⟨hdigit, rfl⟩ := isDigit_decimal_iff.1 hc
      exact ⟨hdigit, _, hds, hn⟩

theorem readDigits_eq_some_iff {limit n : Nat} {cs : List Char} :
    readDigits limit cs = some n ↔ cs ≠ [] ∧ decimal.Writes cs n ∧ n < limit := by
  have hwrites : decimal.Writes cs n ↔ cs.all Char.isDigit = true ∧ value cs = n := by
    rw [value, ofDigitChars_eq_iff]
    simp only [Writes, ofDigits_reverse, eq_comm, decimal]
  rw [hwrites]
  unfold readDigits
  split
  · next h =>
    rw [Option.some_inj]
    constructor
    · rintro rfl
      exact ⟨h.1, ⟨h.2.1, rfl⟩, h.2.2⟩
    · exact fun h => h.2.1.2
  · next h =>
    constructor
    · intro hsome
      cases hsome
    · rintro ⟨hne, ⟨hall, rfl⟩, hlt⟩
      exact absurd ⟨hne, hall, hlt⟩ h

theorem writes_digits (n : Nat) : decimal.Writes (digits n) n := by
  have hread := readDigits_digits (Nat.lt_succ_self n)
  exact (readDigits_eq_some_iff.1 hread).2.1

theorem not_isBlank_of_mem_digits (n : Nat) : ∀ c ∈ digits n, Text.isBlank c = false :=
  (writes_digits n).not_isBlank (by decide)

end Decimal

/-! ## Hexadecimal -/

namespace Hex

theorem digitValue?_eq_some_iff {c : Char} {d : Nat} :
    digitValue? c = some d ↔ hexadecimal.IsDigit c d := by
  constructor
  · intro h
    have hlt : c.toNat < 128 := by
      unfold digitValue? at h
      grind
    have hdigit : ∀ n, n < 128 → ∀ d ∈ digitValue? (Char.ofNat n),
        hexadecimal.IsDigit (Char.ofNat n) d := by decide +kernel
    have := hdigit c.toNat hlt d
    rw [Char.ofNat_toNat] at this
    exact this h
  · intro h
    have hlt : d < 16 := h.lt
    have hvalue : ∀ row ∈ hexadecimal.rows, ∀ d, d < 16 →
        (row.toList[d]?.all fun c => digitValue? c == some d) = true := by decide
    obtain ⟨row, hrow, hd⟩ := h
    have := hvalue row hrow d hlt
    rwa [hd, Option.all_some, beq_iff_eq] at this

theorem foldlM_digitValue?_eq_some_iff {cs : List Char} {a n : Nat} :
    cs.foldlM (fun n c => (digitValue? c).map (16 * n + ·)) a = some n ↔
      ∃ ds, List.Forall₂ hexadecimal.IsDigit cs ds ∧
        ds.foldl (fun n d => 16 * n + d) a = n := by
  induction cs generalizing a with
  | nil => simp
  | cons c cs ih =>
    rw [List.foldlM_cons, Option.bind_eq_bind, Option.bind_eq_some_iff]
    constructor
    · rintro ⟨b, hb, hrest⟩
      obtain ⟨d, hd, rfl⟩ := Option.map_eq_some_iff.1 hb
      obtain ⟨ds, hds, hn⟩ := ih.1 hrest
      exact ⟨d :: ds, .cons (digitValue?_eq_some_iff.1 hd) hds, hn⟩
    · rintro ⟨_, ⟨⟩ | ⟨hd, hds⟩, hn⟩
      rw [digitValue?_eq_some_iff.2 hd, Option.map_some]
      exact ⟨_, rfl, ih.2 ⟨_, hds, hn⟩⟩

theorem value?_eq_some_iff {cs : List Char} {n : Nat} :
    value? cs = some n ↔ hexadecimal.Writes cs n := by
  rw [value?, foldlM_digitValue?_eq_some_iff]
  simp only [Writes, ofDigits_reverse, eq_comm, hexadecimal]

end Hex
end ScriptScope

import Mathlib.Algebra.Group.Nat.Defs
import Mathlib.Order.Bounds.Basic
import ScriptScope.Text.Decimal

/-!
# ScriptScope.Proofs.Text.Digits

Rows of decimal digits: what they are worth, how long they are, and how they compare as texts.

* `append_lt_append_of_value_lt`: rows of one length are ordered as texts like the numbers they
  write, whatever stands behind them.
* `isLeast_length_digits`: a number has as many digits as it takes to be below a power of ten.
* `head?_digits_ne`: so a number of more than one digit does not begin with a zero.
-/

namespace ScriptScope
namespace Decimal

theorem value_cons (c : Char) (cs : List Char) :
    value (c :: cs) = 10 ^ cs.length * (c.toNat - '0'.toNat) + value cs := by
  rw [value, Nat.ofDigitChars_cons, Nat.ofDigitChars_eq_ofDigitChars_zero, Nat.mul_zero,
    Nat.zero_add]
  rfl

theorem toNat_of_isDigit {c : Char} (h : c.isDigit = true) : 48 ≤ c.toNat ∧ c.toNat ≤ 57 := by
  simpa [Char.isDigit, UInt32.le_iff_toNat_le] using h

theorem value_lt {cs : List Char} (h : ∀ c ∈ cs, c.isDigit = true) : value cs < 10 ^ cs.length := by
  induction cs with
  | nil => decide
  | cons c cs ih =>
    obtain ⟨hc, hcs⟩ := List.forall_mem_cons.1 h
    have hdigit := toNat_of_isDigit hc
    have hzero : '0'.toNat = 48 := rfl
    have hle : c.toNat - 48 ≤ 9 := by omega
    have hrest := ih hcs
    calc value (c :: cs)
        = 10 ^ cs.length * (c.toNat - 48) + value cs := value_cons c cs
      _ < 10 ^ cs.length * 9 + 10 ^ cs.length :=
          Nat.add_lt_add_of_le_of_lt (Nat.mul_le_mul_left _ hle) hrest
      _ = 10 ^ (c :: cs).length := by rw [List.length_cons, Nat.pow_succ]; omega

theorem append_lt_append_of_value_lt {cs ds : List Char} (hlength : cs.length = ds.length)
    (hcs : ∀ c ∈ cs, c.isDigit = true) (hds : ∀ d ∈ ds, d.isDigit = true)
    (h : value cs < value ds) (x y : List Char) : cs ++ x < ds ++ y := by
  induction cs generalizing ds with
  | nil =>
    obtain rfl := List.length_eq_zero_iff.1 hlength.symm
    exact absurd h (Nat.lt_irrefl _)
  | cons c cs ih =>
    cases ds with
    | nil => cases hlength
    | cons d ds =>
      obtain ⟨hc, hcs'⟩ := List.forall_mem_cons.1 hcs
      obtain ⟨hd, hds'⟩ := List.forall_mem_cons.1 hds
      have htail : cs.length = ds.length := Nat.succ.inj hlength
      rw [value_cons, value_cons, htail] at h
      rw [List.cons_append, List.cons_append, List.cons_lt_cons_iff]
      rcases Nat.lt_trichotomy c.toNat d.toNat with hlt | heq | hgt
      · exact .inl hlt
      · obtain rfl := Char.toNat_inj.1 heq
        exact .inr ⟨rfl, ih htail hcs' hds' (Nat.lt_of_add_lt_add_left h)⟩
      · -- the greater first digit outweighs all that follows
        have hdigit := toNat_of_isDigit hc
        have hdigit' := toNat_of_isDigit hd
        have hzero : '0'.toNat = 48 := rfl
        have hstep : d.toNat - 48 + 1 ≤ c.toNat - 48 := by omega
        have hweight := Nat.mul_le_mul_left (10 ^ ds.length) hstep
        have hrest := value_lt hds'
        rw [Nat.mul_succ] at hweight
        rw [hzero] at h
        omega

theorem length_digits_le_iff {n width : Nat} (h : 0 < width) :
    (digits n).length ≤ width ↔ n < 10 ^ width :=
  Nat.length_toDigits_le_iff (by decide) h

theorem length_digits_pos (n : Nat) : 0 < (digits n).length :=
  List.length_pos_iff.2 (digits_ne_nil n)

theorem isLeast_length_digits (n : Nat) :
    IsLeast {width | 0 < width ∧ n < 10 ^ width} (digits n).length := by
  have hpos := length_digits_pos n
  refine ⟨⟨hpos, (length_digits_le_iff hpos).1 (Nat.le_refl _)⟩, ?_⟩
  rintro width ⟨hwidth, hlt⟩
  exact (length_digits_le_iff hwidth).2 hlt

theorem length_digits_mono {m n : Nat} (h : m ≤ n) : (digits m).length ≤ (digits n).length := by
  obtain ⟨hpos, hlt⟩ := (isLeast_length_digits n).1
  exact (isLeast_length_digits m).2 ⟨hpos, Nat.lt_of_le_of_lt h hlt⟩

theorem head?_digits_ne {n : Nat} (h : 1 < (digits n).length) : (digits n).head? ≠ some '0' := by
  intro hzero
  obtain ⟨rest, hrest⟩ := List.head?_eq_some_iff.1 hzero
  have hlength : (digits n).length = rest.length + 1 := by rw [hrest, List.length_cons]
  have hdigits : ∀ c ∈ rest, c.isDigit = true := fun c hc =>
    isDigit_of_mem_digits (hrest ▸ List.mem_cons_of_mem _ hc)
  have hvalue : n = value rest := by
    rw [← value_digits n, hrest, value_cons]
    simp
  have hlt : n < 10 ^ rest.length := hvalue ▸ value_lt hdigits
  have hle := (length_digits_le_iff (by omega)).2 hlt
  omega

end Decimal
end ScriptScope

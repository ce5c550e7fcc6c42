import Mathlib.Data.List.TakeWhile
import ScriptScope.Proofs.Text.Digits
import ScriptScope.Proofs.Toml.Values

/-!
# ScriptScope.Proofs.Toml.Scalars

Numbers in decimal digits, as values of a document.

* `integer?_digits`: the digits of a number are read as that number, of whatever size.
* `value?_word`: a word without quotes and brackets is a value as it stands, and so are the digits
  (`value?_digits`).
-/

namespace ScriptScope
namespace Toml

open Decimal

/-- The number that a digit stands for. -/
def digitOf (c : Char) : Nat :=
  c.toNat - '0'.toNat

theorem digitsIn_of_isDigit {cs : List Char} (hne : cs ≠ []) (h : ∀ c ∈ cs, c.isDigit = true) :
    digitsIn 10 cs = some (cs.map digitOf) := by
  induction cs with
  | nil => exact absurd rfl hne
  | cons c rest ih =>
    obtain ⟨hc, hrest⟩ := List.forall_mem_cons.1 h
    obtain ⟨hlow, hhigh⟩ := toNat_of_isDigit hc
    have hzero : '0'.toNat = 48 := rfl
    have hvalue : Hex.digitValue? c = some (digitOf c) := if_pos ⟨hlow, hhigh⟩
    have hlt : digitOf c < 10 := by
      rw [digitOf]
      omega
    unfold digitsIn
    rw [hvalue, Option.bind_some, if_pos hlt]
    cases rest with
    | nil => rfl
    | cons d more =>
      have hd : d ≠ '_' := by
        rintro rfl
        exact absurd (hrest _ List.mem_cons_self) (by decide)
      have hmore := ih (List.cons_ne_nil _ _) hrest
      simp [hmore, hd]

theorem valueIn_map_digitOf (cs : List Char) : valueIn 10 (cs.map digitOf) = value cs := by
  rw [valueIn, List.foldl_map]
  rfl

theorem digitOf_ne_zero {c : Char} (h : c.isDigit = true) (hc : c ≠ '0') : digitOf c ≠ 0 := by
  obtain ⟨hlow, -⟩ := toNat_of_isDigit h
  have hne : c.toNat ≠ '0'.toNat := fun heq => hc (Char.toNat_inj.1 heq)
  have hzero : '0'.toNat = 48 := rfl
  rw [digitOf]
  omega

theorem wholeDigits?_digits (n : Nat) :
    wholeDigits? (digits n) = some ((digits n).map digitOf) := by
  have hdigits := digitsIn_of_isDigit (digits_ne_nil n) fun c hc => isDigit_of_mem_digits hc
  rw [wholeDigits?, hdigits, Option.filter_some, if_pos]
  by_cases hone : (digits n).length = 1
  · simp [hone]
  · have hpos := length_digits_pos n
    have hhead : (digits n).head? ≠ some '0' := head?_digits_ne (by omega)
    obtain ⟨c, rest, hcs⟩ := List.exists_cons_of_ne_nil (digits_ne_nil n)
    have hc : c.isDigit = true := isDigit_of_mem_digits (n := n) (by simp [hcs])
    have hne : digitOf c ≠ 0 := digitOf_ne_zero hc fun heq => hhead (by simp [hcs, heq])
    simp [hcs, hne]

theorem integer?_digits (n : Nat) : integer? (digits n) = some (n : Int) := by
  have hletter : ∀ letter : Char, letter.isDigit = false →
      ∀ rest, digits n = '0' :: letter :: rest → False := fun letter hletter rest heq =>
    not_mem_digits hletter n (by simp [heq])
  have hsign : splitSign (digits n) = (false, digits n) := by
    rw [splitSign]
    · exact fun rest heq => not_mem_digits (c := '-') (by decide) n (by simp [heq])
    · exact fun rest heq => not_mem_digits (c := '+') (by decide) n (by simp [heq])
  rw [integer?, hsign]
  · simp only [wholeDigits?_digits, Option.map_some, valueIn_map_digitOf, value_digits]
    rfl
  · exact hletter 'x' (by decide)
  · exact hletter 'o' (by decide)
  · exact hletter 'b' (by decide)

theorem scalar?_digits (n : Nat) : scalar? (digits n) = some (.integer n) := by
  have htrue : digits n ≠ "true".toList := fun heq =>
    not_mem_digits (c := 't') (by decide) n (by simp [heq])
  have hfalse : digits n ≠ "false".toList := fun heq =>
    not_mem_digits (c := 'f') (by decide) n (by simp [heq])
  rw [scalar?, if_neg htrue, if_neg hfalse, integer?_digits]

/-- A word is a value of its own, whatever its kind. -/
theorem value?_word {cs : List Char} (h : cs.all isScalar = true) (depth : Nat) :
    value? 1 depth cs = (scalar? cs).map fun v => (v, []) := by
  have hscalar : ∀ c ∈ cs, isScalar c = true := List.all_eq_true.1 h
  have hword : cs.takeWhile isScalar = cs := List.takeWhile_eq_self_iff.2 hscalar
  have hrest : cs.dropWhile isScalar = [] := List.dropWhile_eq_nil_iff.2 hscalar
  have hhead : ∀ mark : Char, isScalar mark = false → ∀ rest, cs = mark :: rest → False := by
    rintro mark hmark rest rfl
    rw [hscalar mark List.mem_cons_self] at hmark
    cases hmark
  have hbare : value? 1 depth cs = bareValue? cs := by
    rw [value?]
    · exact hhead '[' (by decide)
    · exact hhead '\x7b' (by decide)
    · exact hhead '\x22' (by decide)
    · exact hhead '\x27' (by decide)
  rw [hbare, bareValue?_word (by simp [hrest]), hword, hrest]

theorem value?_digits (n depth : Nat) : value? 1 depth (digits n) = some (.integer n, []) := by
  have hscalar : ∀ c ∈ digits n, isScalar c = true := fun c hc => by
    simp [isScalar, Char.isAlphanum, isDigit_of_mem_digits hc]
  rw [value?_word (List.all_eq_true.2 hscalar), scalar?_digits]
  rfl

theorem isSound_integer {n : Nat} (h : n < limit64) : Value.isSound (.integer n) = true := by
  have hlow : Value.minInteger ≤ (n : Int) :=
    Int.le_trans (by decide : Value.minInteger ≤ 0) (Int.natCast_nonneg n)
  have hhigh : (n : Int) < Value.maxInteger :=
    Int.lt_trans (Int.ofNat_lt.2 h) (by decide)
  simp [Value.isSound, hlow, hhigh]

end Toml
end ScriptScope

/-!
# ScriptScope.Text.Decimal

Natural numbers in decimal: writing, zero padding, and reading below a limit.

* `value_digits`: the digits of a number have that number as their value, so two numbers have
  different digits (`digits_inj`, `signed_inj`).
* `readDigits_digits`, `read_digits`: what is written is read back, up to the limit of the reader.
-/

namespace ScriptScope
namespace Decimal

/-- The decimal digits of a number, without leading zeros. -/
def digits (n : Nat) : List Char :=
  Nat.toDigits 10 n

/-- The digits behind as many zeros as bring them to `width` characters. -/
def padded (width n : Nat) : List Char :=
  List.replicate (width - (digits n).length) '0' ++ digits n

/-- The value of a row of decimal digits. -/
def value (cs : List Char) : Nat :=
  Nat.ofDigitChars 10 cs 0

/-- A non-empty row of digits whose value is below the limit. -/
def readDigits (limit : Nat) (cs : List Char) : Option Nat :=
  if cs ≠ [] ∧ cs.all Char.isDigit = true ∧ value cs < limit then some (value cs) else none

/-- As `readDigits`, with at most one plus sign in front. -/
def read (limit : Nat) : List Char → Option Nat
  | '+' :: cs => readDigits limit cs
  | cs => readDigits limit cs

/-- The decimal text of an integer, with a minus sign when it is negative. -/
def signed (n : Int) : List Char :=
  if n < 0 then '-' :: digits n.natAbs else digits n.natAbs

/-- Exclusive limit of the numbers that fit sixty-four bits. -/
def limit64 : Nat := UInt64.size

def limit32 : Nat := UInt32.size

theorem digits_ne_nil (n : Nat) : digits n ≠ [] := by
  simp [digits]

theorem isDigit_of_mem_digits {n : Nat} {c : Char} (h : c ∈ digits n) : c.isDigit = true :=
  Nat.isDigit_of_mem_toDigits (by decide) (by decide) h

theorem value_digits (n : Nat) : value (digits n) = n :=
  Nat.ofDigitChars_toDigits (by decide) (by decide)

theorem digits_inj {m n : Nat} (h : digits m = digits n) : m = n := by
  have hvalue := congrArg value h
  rwa [value_digits, value_digits] at hvalue

theorem not_mem_digits {c : Char} (h : c.isDigit = false) (n : Nat) : c ∉ digits n := by
  intro hc
  rw [isDigit_of_mem_digits hc] at h
  cases h

theorem not_mem_signed {c : Char} (hdigit : c.isDigit = false) (hminus : c ≠ '-') (n : Int) :
    c ∉ signed n := by
  have hdigits := not_mem_digits hdigit n.natAbs
  unfold signed
  split
  · simpa [hminus] using hdigits
  · exact hdigits

theorem signed_inj {m n : Int} (h : signed m = signed n) : m = n := by
  have hminus : ∀ k, '-' ∉ digits k := not_mem_digits (by decide)
  have hfirst : ∀ k cs, digits k ≠ '-' :: cs := by
    intro k cs he
    exact hminus k (by simp [he])
  unfold signed at h
  split at h
  · split at h
    · have := digits_inj (List.cons.inj h).2
      omega
    · exact absurd h.symm (hfirst _ _)
  · split at h
    · exact absurd h (hfirst _ _)
    · have := digits_inj h
      omega

theorem readDigits_digits {limit n : Nat} (h : n < limit) :
    readDigits limit (digits n) = some n := by
  have hd : (digits n).all Char.isDigit = true :=
    List.all_eq_true.2 fun _ hc => isDigit_of_mem_digits hc
  simp [readDigits, digits_ne_nil, value_digits, h, hd]

theorem read_of_not_plus {limit : Nat} {cs : List Char} (h : cs.head? ≠ some '+') :
    read limit cs = readDigits limit cs := by
  unfold read
  split
  · simp at h
  · rfl

theorem read_digits {limit n : Nat} (h : n < limit) : read limit (digits n) = some n := by
  rw [read_of_not_plus, readDigits_digits h]
  intro hp
  have := isDigit_of_mem_digits (List.mem_of_head? hp)
  simp [Char.isDigit] at this

end Decimal
end ScriptScope

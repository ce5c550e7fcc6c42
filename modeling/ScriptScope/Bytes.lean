/-!
# ScriptScope.Bytes

Byte strings as lists, and the little-endian numbers they hold.

* `ofLittleEndian_toLittleEndian`: a number below `capacity width` survives being written.
* `toLittleEndian_ofLittleEndian`: so does every byte string, at its own width.
* `ofLittleEndian_lt`: a byte string of `width` bytes holds a number below `capacity width`.
-/

namespace ScriptScope

abbrev Bytes := List UInt8

namespace Bytes

/-- The number whose base-256 digits are the bytes, the least significant first. -/
def ofLittleEndian : Bytes → Nat
  | [] => 0
  | b :: rest => b.toNat + 256 * ofLittleEndian rest

/-- The last `width` base-256 digits of a number, the least significant first. -/
def toLittleEndian : (width : Nat) → Nat → Bytes
  | 0, _ => []
  | width + 1, n => UInt8.ofNat n :: toLittleEndian width (n / 256)

/-- How many numbers so many bytes can hold. -/
def capacity (width : Nat) : Nat :=
  Nat.pow 256 width

theorem capacity_succ (width : Nat) : capacity (width + 1) = 256 * capacity width :=
  Nat.mul_comm _ _

@[simp] theorem length_toLittleEndian (width n : Nat) :
    (toLittleEndian width n).length = width := by
  induction width generalizing n with
  | zero => rfl
  | succ width ih => simp [toLittleEndian, ih]

theorem ofLittleEndian_lt (bs : Bytes) : ofLittleEndian bs < capacity bs.length := by
  induction bs with
  | nil => exact Nat.zero_lt_one
  | cons b rest ih =>
    have := b.toNat_lt
    rw [ofLittleEndian, List.length_cons, capacity_succ]
    omega

theorem ofLittleEndian_toLittleEndian {width n : Nat} (h : n < capacity width) :
    ofLittleEndian (toLittleEndian width n) = n := by
  induction width generalizing n with
  | zero =>
    have hn : n = 0 := Nat.lt_one_iff.1 h
    simp [toLittleEndian, ofLittleEndian, hn]
  | succ width ih =>
    have hd : n / 256 < capacity width := by
      rw [capacity_succ] at h
      omega
    simp only [toLittleEndian, ofLittleEndian, ih hd, UInt8.toNat_ofNat']
    omega

theorem toLittleEndian_ofLittleEndian (bs : Bytes) :
    toLittleEndian bs.length (ofLittleEndian bs) = bs := by
  induction bs with
  | nil => rfl
  | cons b rest ih =>
    have hb := b.toNat_lt
    have low : UInt8.ofNat (b.toNat + 256 * ofLittleEndian rest) = b := by
      apply UInt8.toNat_inj.1
      rw [UInt8.toNat_ofNat']
      omega
    have high : (b.toNat + 256 * ofLittleEndian rest) / 256 = ofLittleEndian rest := by omega
    simp [ofLittleEndian, toLittleEndian, low, high, ih]

/-- The bytes in blocks of `size`, at least one byte each; the last block may be shorter. -/
def blocks (size : Nat) : Bytes → List Bytes
  | [] => []
  | b :: rest => (b :: rest.take (size - 1)) :: blocks size (rest.drop (size - 1))
termination_by bs => bs.length
decreasing_by simp only [List.length_drop, List.length_cons]; omega

/-- The word whose bytes these are, the least significant first. -/
def littleWord (bs : Bytes) : UInt32 :=
  UInt32.ofNat (ofLittleEndian bs)

/-- The word whose bytes these are, the most significant first. -/
def bigWord (bs : Bytes) : UInt32 :=
  littleWord bs.reverse

end Bytes
end ScriptScope

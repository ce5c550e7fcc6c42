import ScriptScope.Text.Quoted
import ScriptScope.Text.Utf8

/-!
# ScriptScope.Text.Hex

Byte strings in hexadecimal, and thirty-two-bit words as eight digits.

* `value?_word`: the eight digits of a word read back as that word.
* `Fault`: a text of an odd number of bytes is refused first, whatever it holds. A leading `0x` or
  `0X` is then dropped, and the first byte that is no digit is the fault, at its place after the
  marker.
-/

namespace ScriptScope
namespace Hex

/-- The lower-case digit of a number below sixteen. -/
def digit (n : Nat) : Char :=
  Char.ofNat (if n < 10 then 0x30 + n else 0x57 + n)

/-- The upper-case digit of a number below sixteen. -/
def upperDigit (n : Nat) : Char :=
  Char.ofNat (if n < 10 then 0x30 + n else 0x37 + n)

/-- The value of a digit of either case. -/
def digitValue? (c : Char) : Option Nat :=
  let n := c.toNat
  if 0x30 ≤ n ∧ n ≤ 0x39 then some (n - 0x30)
  else if 0x41 ≤ n ∧ n ≤ 0x46 then some (n - 0x37)
  else if 0x61 ≤ n ∧ n ≤ 0x66 then some (n - 0x57)
  else none

/-- The two lower-case digits of a byte. -/
def byte (b : UInt8) : List Char :=
  [digit (b.toNat / 16), digit (b.toNat % 16)]

/-- The two upper-case digits of a byte. -/
def upperByte (b : UInt8) : List Char :=
  [upperDigit (b.toNat / 16), upperDigit (b.toNat % 16)]

def encode (bs : Bytes) : List Char :=
  bs.flatMap byte

/-- The lower-case digits of a byte string behind the marker `0x`. -/
def marked (bs : Bytes) : List Char :=
  '0' :: 'x' :: encode bs

/-- The eight lower-case digits of a word, the most significant first. -/
def word (w : UInt32) : List Char :=
  encode (Bytes.toLittleEndian 4 w.toNat).reverse

/-- The number that a row of digits of either case writes in base sixteen. -/
def value? (cs : List Char) : Option Nat :=
  cs.foldlM (fun n c => (digitValue? c).map (16 * n + ·)) 0

/-- Why a text is no byte string. -/
inductive Fault where
  | oddLength
  | invalidDigit (byte : UInt8) (position : Nat)
deriving DecidableEq, Repr

/-- The character with the number of a byte. -/
def charOfByte (b : UInt8) : Char :=
  Char.ofNat b.toNat

def Fault.message : Fault → String
  | .oddLength => "odd number of digits"
  | .invalidDigit b position =>
    String.ofList ("invalid character ".toList ++ Quoted.char (charOfByte b) ++
      " at position ".toList ++ Decimal.digits position)

/-- The bytes that pairs of digits write; `position` is the place of the first of them. -/
def pairs (position : Nat) : Bytes → Except Fault Bytes
  | [] => .ok []
  | [_] => .error .oddLength
  | a :: b :: rest =>
    match digitValue? (charOfByte a), digitValue? (charOfByte b) with
    | none, _ => .error (.invalidDigit a position)
    | some _, none => .error (.invalidDigit b (position + 1))
    | some high, some low =>
      (pairs (position + 2) rest).map (UInt8.ofNat (16 * high + low) :: ·)

/-- What is left of a text without a leading `0x` or `0X`. -/
def dropMarker : Bytes → Bytes
  | 0x30 :: 0x78 :: rest => rest
  | 0x30 :: 0x58 :: rest => rest
  | bs => bs

/-- The byte string that the bytes of a text write. -/
def decodeBytes (bs : Bytes) : Except Fault Bytes :=
  if bs.length % 2 = 1 then .error .oddLength else pairs 0 (dropMarker bs)

/-- The byte string that a text writes. -/
def decode (text : String) : Except Fault Bytes :=
  decodeBytes (Utf8.encode text)

theorem digitValue?_digit : ∀ n, n < 16 → digitValue? (digit n) = some n := by
  decide

theorem foldlM_encode (bs : Bytes) (n : Nat) :
    (encode bs).foldlM (fun n c => (digitValue? c).map (16 * n + ·)) n =
      some (bs.foldl (fun n b => 256 * n + b.toNat) n) := by
  induction bs generalizing n with
  | nil => rfl
  | cons b bs ih =>
    have hb := b.toNat_lt
    have hhigh := digitValue?_digit (b.toNat / 16) (by omega)
    have hlow := digitValue?_digit (b.toNat % 16) (by omega)
    have hstep : 16 * (16 * n + b.toNat / 16) + b.toNat % 16 = 256 * n + b.toNat := by omega
    have hrest := ih (256 * n + b.toNat)
    simp only [encode] at hrest
    simp only [encode, List.flatMap_cons, byte, List.foldlM_append, List.foldlM_cons, hhigh, hlow,
      Option.map_some, Option.bind_eq_bind, Option.bind_some, List.foldlM_nil, Option.pure_def,
      hstep, hrest, List.foldl_cons]

theorem foldl_reverse_toLittleEndian (bs : Bytes) :
    bs.reverse.foldl (fun n b => 256 * n + b.toNat) 0 = Bytes.ofLittleEndian bs := by
  induction bs with
  | nil => rfl
  | cons b bs ih =>
    rw [List.reverse_cons, List.foldl_append, ih]
    simp only [List.foldl_cons, List.foldl_nil, Bytes.ofLittleEndian]
    omega

theorem length_encode (bs : Bytes) : (encode bs).length = 2 * bs.length := by
  induction bs with
  | nil => rfl
  | cons b bs ih =>
    simp only [encode, List.flatMap_cons, List.length_append] at ih ⊢
    simp [ih, byte]
    omega

theorem length_word (w : UInt32) : (word w).length = 8 := by
  simp [word, length_encode]

theorem value?_word (w : UInt32) : value? (word w) = some w.toNat := by
  have hw : w.toNat < Bytes.capacity 4 := w.toNat_lt
  rw [value?, word, foldlM_encode, foldl_reverse_toLittleEndian,
    Bytes.ofLittleEndian_toLittleEndian hw]

end Hex
end ScriptScope

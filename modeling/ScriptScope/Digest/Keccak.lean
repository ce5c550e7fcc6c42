import ScriptScope.Bytes

/-!
# ScriptScope.Digest.Keccak

The sponge hash Keccak-256: a state of five by five lanes of sixty-four bits, a rate of 136 bytes,
and padding that begins with the bit pattern `0x01`. (The later standard pads with `0x06` and so
gives other digests.)
-/

namespace ScriptScope
namespace Keccak

/-- Twenty-five lanes; lane `(x, y)` stands at `x + 5 * y`. -/
abbrev State := Vector UInt64 25

/-- Bytes absorbed by one permutation. -/
def rate : Nat := 136

/-- The constant that each round adds to the first lane. -/
def roundConstants : List UInt64 :=
  [0x0000000000000001, 0x0000000000008082, 0x800000000000808A, 0x8000000080008000,
   0x000000000000808B, 0x0000000080000001, 0x8000000080008081, 0x8000000000008009,
   0x000000000000008A, 0x0000000000000088, 0x0000000080008009, 0x000000008000000A,
   0x000000008000808B, 0x800000000000008B, 0x8000000000008089, 0x8000000000008003,
   0x8000000000008002, 0x8000000000000080, 0x000000000000800A, 0x800000008000000A,
   0x8000000080008081, 0x8000000000008080, 0x0000000080000001, 0x8000000080008008]

/-- How far each lane turns, in the order of the lanes. -/
def offsets : Vector UInt64 25 :=
  #v[0, 1, 62, 28, 27,
     36, 44, 6, 55, 20,
     3, 10, 43, 25, 39,
     41, 45, 15, 21, 8,
     18, 2, 61, 56, 14]

/-- The lane of a column and a row, both read modulo five. -/
def lane (s : State) (x y : Nat) : UInt64 :=
  s.get ⟨x % 5 + 5 * (y % 5), by omega⟩

/-- A state built lane by lane. -/
def build (f : Nat → Nat → UInt64) : State :=
  Vector.ofFn fun i => f (i.val % 5) (i.val / 5)

/-- Turns a lane toward its high end. -/
def turn (w n : UInt64) : UInt64 :=
  if n = 0 then w else (w <<< n) ||| (w >>> (64 - n))

/-- Adds to every lane the parities of the columns beside it. -/
def mixColumns (s : State) : State :=
  let parity : Vector UInt64 5 := Vector.ofFn fun x =>
    lane s x 0 ^^^ lane s x 1 ^^^ lane s x 2 ^^^ lane s x 3 ^^^ lane s x 4
  build fun x y =>
    lane s x y ^^^ parity.get ⟨(x + 4) % 5, by omega⟩ ^^^
      turn (parity.get ⟨(x + 1) % 5, by omega⟩) 1

/-- Turns every lane and moves it: the lane at `(x, y)` goes to `(y, 2x + 3y)`. -/
def scatter (s : State) : State :=
  build fun x y =>
    let source := (x + 3 * y) % 5 + 5 * x
    if h : source < 25 then turn s[source] offsets[source] else 0

/-- Combines every lane with the two to its right. -/
def mixRows (s : State) : State :=
  build fun x y => lane s x y ^^^ (~~~ lane s (x + 1) y &&& lane s (x + 2) y)

def round (s : State) (constant : UInt64) : State :=
  let t := mixRows (scatter (mixColumns s))
  t.set 0 (t[0] ^^^ constant)

def permute (s : State) : State :=
  roundConstants.foldl round s

/-- The lane of eight bytes, the least significant first. -/
def laneOf (bs : Bytes) : UInt64 :=
  UInt64.ofNat (Bytes.ofLittleEndian bs)

/-- Adds a block of `rate` bytes to the state and permutes. -/
def absorb (s : State) (block : Bytes) : State :=
  let words : Array UInt64 := (Bytes.blocks 8 block).toArray.map laneOf
  permute (Vector.ofFn fun i => s[i] ^^^ words.getD i 0)

/-- The message followed by `0x01`, zeros and a final bit, filling whole blocks. -/
def padded (message : Bytes) : Bytes :=
  let room := rate - message.length % rate
  message ++
    if room = 1 then [0x81] else 0x01 :: List.replicate (room - 2) 0x00 ++ [0x80]

def digest (message : Bytes) : Bytes :=
  let s := (Bytes.blocks rate (padded message)).foldl absorb (Vector.replicate 25 0)
  (s.toList.take 4).flatMap fun w => Bytes.toLittleEndian 8 w.toNat

end Keccak
end ScriptScope

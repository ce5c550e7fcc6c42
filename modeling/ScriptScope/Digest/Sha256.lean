import ScriptScope.Bytes

/-!
# ScriptScope.Digest.Sha256

The hash SHA-256: eight words of thirty-two bits, sixty-four rounds for each block of sixty-four
bytes, and a padding that ends with the length of the message in bits.
-/

namespace ScriptScope
namespace Sha256

/-- The eight words carried from block to block. -/
abbrev State := Vector UInt32 8

/-- Fractional parts of the square roots of the first eight primes. -/
def initial : State :=
  #v[0x6A09E667, 0xBB67AE85, 0x3C6EF372, 0xA54FF53A,
     0x510E527F, 0x9B05688C, 0x1F83D9AB, 0x5BE0CD19]

/-- Fractional parts of the cube roots of the first sixty-four primes. -/
def roundConstants : List UInt32 :=
  [0x428A2F98, 0x71374491, 0xB5C0FBCF, 0xE9B5DBA5, 0x3956C25B, 0x59F111F1,
   0x923F82A4, 0xAB1C5ED5, 0xD807AA98, 0x12835B01, 0x243185BE, 0x550C7DC3,
   0x72BE5D74, 0x80DEB1FE, 0x9BDC06A7, 0xC19BF174, 0xE49B69C1, 0xEFBE4786,
   0x0FC19DC6, 0x240CA1CC, 0x2DE92C6F, 0x4A7484AA, 0x5CB0A9DC, 0x76F988DA,
   0x983E5152, 0xA831C66D, 0xB00327C8, 0xBF597FC7, 0xC6E00BF3, 0xD5A79147,
   0x06CA6351, 0x14292967, 0x27B70A85, 0x2E1B2138, 0x4D2C6DFC, 0x53380D13,
   0x650A7354, 0x766A0ABB, 0x81C2C92E, 0x92722C85, 0xA2BFE8A1, 0xA81A664B,
   0xC24B8B70, 0xC76C51A3, 0xD192E819, 0xD6990624, 0xF40E3585, 0x106AA070,
   0x19A4C116, 0x1E376C08, 0x2748774C, 0x34B0BCB5, 0x391C0CB3, 0x4ED8AA4A,
   0x5B9CCA4F, 0x682E6FF3, 0x748F82EE, 0x78A5636F, 0x84C87814, 0x8CC70208,
   0x90BEFFFA, 0xA4506CEB, 0xBEF9A3F7, 0xC67178F2]

/-- Turns a word toward its low end. -/
def turn (w n : UInt32) : UInt32 :=
  (w >>> n) ||| (w <<< (32 - n))

/-- The next word of the schedule from the sixteen before it, the latest first. -/
def nextWord (window : Vector UInt32 16) : UInt32 :=
  let early := window[14]
  let late := window[1]
  let a := turn early 7 ^^^ turn early 18 ^^^ (early >>> 3)
  let b := turn late 17 ^^^ turn late 19 ^^^ (late >>> 10)
  window[15] + a + window[6] + b

def round (s : State) (constant word : UInt32) : State :=
  let (a, b, c, d) := (s[0], s[1], s[2], s[3])
  let (e, f, g, h) := (s[4], s[5], s[6], s[7])
  let first := h + (turn e 6 ^^^ turn e 11 ^^^ turn e 25) + ((e &&& f) ^^^ (~~~ e &&& g)) +
    constant + word
  let second := (turn a 2 ^^^ turn a 13 ^^^ turn a 22) +
    ((a &&& b) ^^^ (a &&& c) ^^^ (b &&& c))
  #v[first + second, a, b, c, d + first, e, f, g]

/-- The word of four bytes, the most significant first. -/
def wordOf (bs : Bytes) : UInt32 :=
  Bytes.bigWord bs

/-- The schedule of `count` further words behind those in the window, oldest first. -/
def schedule (window : Vector UInt32 16) : Nat → List UInt32
  | 0 => []
  | count + 1 =>
    window[15] ::
      schedule (Vector.ofFn fun i =>
        if i.val = 0 then nextWord window else window.get ⟨i.val - 1, by omega⟩) count

/-- Mixes a block of sixty-four bytes into the state. -/
def compress (s : State) (block : Bytes) : State :=
  let words : Array UInt32 := (Bytes.blocks 4 block).toArray.map wordOf
  let window : Vector UInt32 16 := Vector.ofFn fun i => words.getD (15 - i) 0
  let mixed := (roundConstants.zip (schedule window 64)).foldl
    (fun t (constant, word) => round t constant word) s
  Vector.ofFn fun i => s[i] + mixed[i]

/-- The message followed by a set bit, zeros, and its length in bits, filling whole blocks. -/
def padded (message : Bytes) : Bytes :=
  let zeros := (119 - message.length % 64) % 64
  message ++ 0x80 :: List.replicate zeros 0x00 ++
    (Bytes.toLittleEndian 8 (8 * message.length)).reverse

def digest (message : Bytes) : Bytes :=
  let s := (Bytes.blocks 64 (padded message)).foldl compress initial
  s.toList.flatMap fun w => (Bytes.toLittleEndian 4 w.toNat).reverse

end Sha256
end ScriptScope

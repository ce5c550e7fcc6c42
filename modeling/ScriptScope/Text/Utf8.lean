import ScriptScope.Bytes

/-!
# ScriptScope.Text.Utf8

Texts as byte strings, strictly and with a replacement for what is no text.

* `decode?_encode`, `encode_of_decode?`: the strict reading is the inverse of the encoding.
* `encode_of_ascii`: a text of small characters is encoded with one byte for each.
* `Scan.step`: the lossy reading takes one byte at a time. A character in progress that the next
  byte cannot continue is one replacement mark, and the byte is read again as a first byte; so
  every longest beginning of a character that breaks off becomes one mark.
-/

namespace ScriptScope
namespace Utf8

/-- The bytes of a text. -/
def encode (text : String) : Bytes :=
  text.toUTF8.data.toList

/-- The text with these bytes, if they are the bytes of a text. -/
def decode? (bs : Bytes) : Option String :=
  String.fromUTF8? ⟨bs.toArray⟩

theorem decode?_encode (text : String) : decode? (encode text) = some text := by
  simp only [decode?, encode, Array.toArray_toList, String.fromUTF8?, String.toUTF8]
  exact dif_pos text.isValidUTF8

theorem encode_of_decode? {bs : Bytes} {text : String} (h : decode? bs = some text) :
    encode text = bs := by
  unfold decode? String.fromUTF8? at h
  split at h
  · cases h
    simp [encode, String.fromUTF8]
  · simp at h

theorem encode_ofList (cs : List Char) :
    encode (String.ofList cs) = cs.flatMap String.utf8EncodeChar := by
  have hdata : ∀ bs : Bytes, bs.toByteArray.data.toList = bs := fun bs => by simp
  exact hdata _

theorem encode_of_ascii {cs : List Char} (h : ∀ c ∈ cs, c.toNat < 0x80) :
    encode (String.ofList cs) = cs.map fun c => UInt8.ofNat c.toNat := by
  rw [encode_ofList]
  induction cs with
  | nil => rfl
  | cons c cs ih =>
    obtain ⟨hc, hcs⟩ := List.forall_mem_cons.1 h
    have hone : String.utf8EncodeChar c = [UInt8.ofNat c.toNat] := if_pos (Nat.le_of_lt_succ hc)
    rw [List.flatMap_cons, hone, ih hcs]
    rfl

theorem encode_inj {a b : String} (h : encode a = encode b) : a = b := by
  have hdecode := congrArg decode? h
  rw [decode?_encode, decode?_encode] at hdecode
  exact Option.some.inj hdecode

/-- The character that stands for bytes that are no text. -/
def replacement : Char := '\uFFFD'

/-- A character in progress. -/
structure Partial where
  /-- Bytes still to come. -/
  owed : Nat
  /-- Least value of the next byte. -/
  low : UInt8
  /-- Greatest value of the next byte. -/
  high : UInt8
  /-- Bits read so far. -/
  bits : Nat

/-- The character that a first byte begins, if it is longer than the byte. -/
def Partial.ofLead (b : UInt8) : Option Partial :=
  if 0xC2 ≤ b ∧ b ≤ 0xDF then some ⟨1, 0x80, 0xBF, b.toNat % 0x20⟩
  else if b = 0xE0 then some ⟨2, 0xA0, 0xBF, 0⟩
  else if b = 0xED then some ⟨2, 0x80, 0x9F, 0xD⟩
  else if 0xE1 ≤ b ∧ b ≤ 0xEF then some ⟨2, 0x80, 0xBF, b.toNat % 0x10⟩
  else if b = 0xF0 then some ⟨3, 0x90, 0xBF, 0⟩
  else if 0xF1 ≤ b ∧ b ≤ 0xF3 then some ⟨3, 0x80, 0xBF, b.toNat % 0x08⟩
  else if b = 0xF4 then some ⟨3, 0x80, 0x8F, 4⟩
  else none

/-- Where the lossy reading stands. -/
structure Scan where
  /-- The text read so far. -/
  text : String
  /-- The character in progress. -/
  pending : Option Partial

namespace Scan

/-- Reads a byte between two characters. -/
def first (text : String) (b : UInt8) : Scan :=
  if b < 0x80 then ⟨text.push (Char.ofNat b.toNat), none⟩
  else match Partial.ofLead b with
    | some p => ⟨text, some p⟩
    | none => ⟨text.push replacement, none⟩

def step (s : Scan) (b : UInt8) : Scan :=
  match s.pending with
  | none => first s.text b
  | some p =>
    if p.low ≤ b ∧ b ≤ p.high then
      let bits := p.bits * 0x40 + b.toNat % 0x40
      if p.owed ≤ 1 then ⟨s.text.push (Char.ofNat bits), none⟩
      else ⟨s.text, some ⟨p.owed - 1, 0x80, 0xBF, bits⟩⟩
    else first (s.text.push replacement) b

/-- The text at the end of the bytes. -/
def finish (s : Scan) : String :=
  if s.pending.isSome then s.text.push replacement else s.text

end Scan

/-- The text of the bytes, with a replacement mark for each part that is no text. -/
def decodeLossy (bs : Bytes) : String :=
  (bs.foldl Scan.step ⟨"", none⟩).finish

end Utf8
end ScriptScope

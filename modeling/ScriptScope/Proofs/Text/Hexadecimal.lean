import ScriptScope.Proofs.Text.Numerals

/-!
# ScriptScope.Proofs.Text.Hexadecimal

Which byte string a hexadecimal text writes, said of the characters of the text. The reader works on
the bytes of its encoding instead, where a digit is one byte and no part of a longer character looks
like one.

* `decode_eq_ok_iff`: the reader takes a marker and then the digits of the byte string in pairs.
* `decode_trim_eq_ok_iff`: the same with blanks around.
* `decode_marked`: so what is written as marked digits reads back.
* `exists_spells_iff`: rows of digits that write a byte string.
* `shows_iff`, `isWord_iff`: in lower case there is one text for each byte string and word.
* `Spells.eq_iff`: two rows write one byte string if they differ in case only.
-/

namespace ScriptScope
namespace Hex

open Radix

/-- A text writes a byte string with two digits for each byte, the higher one first. -/
inductive Spells : List Char → Bytes → Prop where
  | nil : Spells [] []
  | cons {high low : Char} {h l : Nat} {cs : List Char} {bs : Bytes}
    (hhigh : hexadecimal.IsDigit high h) (hlow : hexadecimal.IsDigit low l) (rest : Spells cs bs) :
    Spells (high :: low :: cs) (UInt8.ofNat (16 * h + l) :: bs)

/-- What may stand in front of the digits. -/
def markers : List (List Char) :=
  [[], ['0', 'x'], ['0', 'X']]

/-- A text that writes a byte string: digits, one of the given marks in front, and blanks around. -/
inductive Writes (marks : List (List Char)) (bs : Bytes) : List Char → Prop where
  | intro {front marker digits back : List Char} (hfront : ∀ c ∈ front, Text.isBlank c = true)
    (hmarker : marker ∈ marks) (hdigits : Spells digits bs)
    (hback : ∀ c ∈ back, Text.isBlank c = true) :
    Writes marks bs (front ++ (marker ++ digits) ++ back)

def byteOf (c : Char) : UInt8 :=
  UInt8.ofNat c.toNat

theorem toNat_charOfByte (b : UInt8) : (charOfByte b).toNat = b.toNat :=
  Text.toNat_ofNat (Text.isValidChar_byte b)

theorem byteOf_charOfByte (b : UInt8) : byteOf (charOfByte b) = b := by
  rw [byteOf, toNat_charOfByte, UInt8.ofNat_toNat]

theorem charOfByte_byteOf {c : Char} (h : c.toNat < 0x80) : charOfByte (byteOf c) = c := by
  rw [charOfByte, byteOf, UInt8.toNat_ofNat', Nat.mod_eq_of_lt (by omega), Char.ofNat_toNat]

/-- What is so of every digit is so of every character that is written. -/
theorem Spells.forall_mem {p : Char → Bool} {cs : List Char} {bs : Bytes} (h : Spells cs bs)
    (hrows : (hexadecimal.rows.all fun row => row.toList.all p) = true) :
    ∀ c ∈ cs, p c = true := by
  induction h with
  | nil => simp
  | cons hhigh hlow _ ih => simpa using ⟨hhigh.of_rows hrows, hlow.of_rows hrows, ih⟩

theorem Spells.ascii {cs : List Char} {bs : Bytes} (h : Spells cs bs) :
    ∀ c ∈ cs, c.toNat < 0x80 := by
  intro c hc
  simpa using h.forall_mem (p := fun c => decide (c.toNat < 0x80)) (by decide) c hc

theorem Spells.length {cs : List Char} {bs : Bytes} (h : Spells cs bs) :
    cs.length = 2 * bs.length := by
  induction h with
  | nil => rfl
  | cons _ _ _ ih =>
    simp only [List.length_cons, ih]
    omega

/-- Two digits for each byte write the byte string, of whichever case they are. -/
theorem spells_flatMap {digit : Nat → Char} (hdigit : ∀ n, n < 16 → digitValue? (digit n) = some n)
    (bs : Bytes) :
    Spells (bs.flatMap fun b => [digit (b.toNat / 16), digit (b.toNat % 16)]) bs := by
  induction bs with
  | nil => exact .nil
  | cons b bs ih =>
    have hb := b.toNat_lt
    have hwhole : UInt8.ofNat (16 * (b.toNat / 16) + b.toNat % 16) = b := by
      rw [Nat.div_add_mod, UInt8.ofNat_toNat]
    have hhigh := digitValue?_eq_some_iff.1 (hdigit (b.toNat / 16) (by omega))
    have hlow := digitValue?_eq_some_iff.1 (hdigit (b.toNat % 16) (by omega))
    have hspells := Spells.cons hhigh hlow ih
    rwa [hwhole] at hspells

theorem spells_encode (bs : Bytes) : Spells (encode bs) bs :=
  spells_flatMap digitValue?_digit bs

theorem mem_lowerRow_of_mem_encode (bs : Bytes) :
    ∀ c ∈ encode bs, c ∈ "0123456789abcdef".toList := by
  have hdigit : ∀ n, n < 16 → digit n ∈ "0123456789abcdef".toList := by decide
  intro c hc
  obtain ⟨b, -, hc⟩ := List.mem_flatMap.1 hc
  have hb := b.toNat_lt
  simp only [byte, List.mem_cons, List.not_mem_nil, or_false] at hc
  rcases hc with rfl | rfl
  · exact hdigit _ (by omega)
  · exact hdigit _ (by omega)

theorem spells_upperBytes (bs : Bytes) : Spells (bs.flatMap upperByte) bs :=
  @spells_flatMap upperDigit (by decide) bs

/-! ## The reader -/

theorem pairs_of_spells {cs : List Char} {bs : Bytes} (h : Spells cs bs) (position : Nat) :
    pairs position (cs.map byteOf) = .ok bs := by
  induction h generalizing position with
  | nil => rfl
  | @cons high low h l cs bs hhigh hlow rest ih =>
    have hascii := (Spells.cons hhigh hlow rest).ascii
    have hh := charOfByte_byteOf (hascii high (by simp))
    have hl := charOfByte_byteOf (hascii low (by simp))
    simp only [List.map_cons, pairs, hh, hl, digitValue?_eq_some_iff.2 hhigh,
      digitValue?_eq_some_iff.2 hlow, ih, Except.map]

theorem Spells.unique {cs : List Char} {bs bs' : Bytes} (h : Spells cs bs) (h' : Spells cs bs') :
    bs = bs' := by
  have hread := pairs_of_spells h 0
  rw [pairs_of_spells h' 0] at hread
  exact (Except.ok.inj hread).symm

theorem spells_of_pairs {position : Nat} {bytes bs : Bytes} (h : pairs position bytes = .ok bs) :
    ∃ cs, Spells cs bs ∧ bytes = cs.map byteOf := by
  fun_induction pairs position bytes generalizing bs with
  | case1 =>
    cases h
    exact ⟨[], .nil, rfl⟩
  | case2 => cases h
  | case3 => cases h
  | case4 => cases h
  | case5 position a b rest high low hlow hhigh ih =>
    cases hrest : pairs (position + 2) rest with
    | error e =>
      rw [hrest] at h
      cases h
    | ok more =>
      rw [hrest] at h
      cases h
      obtain ⟨cs, hspells, rfl⟩ := ih hrest
      refine ⟨_, .cons (digitValue?_eq_some_iff.1 hhigh) (digitValue?_eq_some_iff.1 hlow) hspells,
        ?_⟩
      rw [List.map_cons, List.map_cons, byteOf_charOfByte, byteOf_charOfByte]

theorem dropMarker_eq (bytes : Bytes) :
    ∃ marker ∈ markers, bytes = marker.map byteOf ++ dropMarker bytes := by
  unfold dropMarker
  split
  · exact ⟨['0', 'x'], by simp [markers], rfl⟩
  · exact ⟨['0', 'X'], by simp [markers], rfl⟩
  · exact ⟨[], by simp [markers], rfl⟩

/-- No digit is the second character of a marker. -/
theorem dropMarker_of_spells {cs : List Char} {bs : Bytes} (h : Spells cs bs) :
    dropMarker (cs.map byteOf) = cs.map byteOf := by
  cases h with
  | nil => rfl
  | @cons high low h l cs bs hhigh hlow rest =>
    have hne : byteOf low ≠ 0x78 ∧ byteOf low ≠ 0x58 := by
      have hlow' := (Spells.cons hhigh hlow rest).forall_mem
        (p := fun c => byteOf c != 0x78 && byteOf c != 0x58) (by decide) low (by simp)
      simpa using hlow'
    rw [List.map_cons, List.map_cons]
    unfold dropMarker
    split
    · next heq => exact absurd (List.cons.inj (List.cons.inj heq).2).1 hne.1
    · next heq => exact absurd (List.cons.inj (List.cons.inj heq).2).1 hne.2
    · rfl

theorem dropMarker_append {marker cs : List Char} {bs : Bytes} (hmarker : marker ∈ markers)
    (h : Spells cs bs) : dropMarker ((marker ++ cs).map byteOf) = cs.map byteOf := by
  simp only [markers, List.mem_cons, List.not_mem_nil, or_false] at hmarker
  rcases hmarker with rfl | rfl | rfl
  · exact dropMarker_of_spells h
  · rfl
  · rfl

theorem ascii_append {marker cs : List Char} {bs : Bytes} (hmarker : marker ∈ markers)
    (h : Spells cs bs) : ∀ c ∈ marker ++ cs, c.toNat < 0x80 := by
  have hmarks : ∀ marker ∈ markers, ∀ c ∈ marker, c.toNat < 0x80 := by simp [markers]
  intro c hc
  rcases List.mem_append.1 hc with hc | hc
  · exact hmarks marker hmarker c hc
  · exact h.ascii c hc

theorem decodeBytes_eq_ok_iff {bytes bs : Bytes} :
    decodeBytes bytes = .ok bs ↔ ∃ marker ∈ markers, ∃ digits, Spells digits bs ∧
      bytes = (marker ++ digits).map byteOf := by
  constructor
  · intro h
    unfold decodeBytes at h
    split at h
    · cases h
    · obtain ⟨digits, hspells, hrest⟩ := spells_of_pairs h
      obtain ⟨marker, hmarker, hbytes⟩ := dropMarker_eq bytes
      rw [hrest, ← List.map_append] at hbytes
      exact ⟨marker, hmarker, digits, hspells, hbytes⟩
  · rintro ⟨marker, hmarker, digits, hspells, rfl⟩
    have heven : (marker ++ digits).length % 2 ≠ 1 := by
      have hmarks : ∀ marker ∈ markers, marker.length % 2 = 0 := by decide
      have hlength := hspells.length
      have hmark := hmarks marker hmarker
      rw [List.length_append]
      omega
    rw [decodeBytes, List.length_map, if_neg heven, dropMarker_append hmarker hspells,
      pairs_of_spells hspells]

/-- A text of small characters is known by its bytes. -/
theorem encode_eq_map_byteOf_iff {text : String} {cs : List Char} (h : ∀ c ∈ cs, c.toNat < 0x80) :
    Utf8.encode text = cs.map byteOf ↔ text.toList = cs := by
  have hcs : Utf8.encode (String.ofList cs) = cs.map byteOf := Utf8.encode_of_ascii h
  rw [← hcs]
  constructor
  · intro he
    rw [Utf8.encode_inj he, String.toList_ofList]
  · rintro rfl
    rw [String.ofList_toList]

theorem decode_eq_ok_iff {text : String} {bs : Bytes} :
    decode text = .ok bs ↔
      ∃ marker ∈ markers, ∃ digits, Spells digits bs ∧ text.toList = marker ++ digits := by
  rw [decode, decodeBytes_eq_ok_iff]
  refine exists_congr fun marker => and_congr_right fun hmarker =>
    exists_congr fun digits => and_congr_right fun hspells => ?_
  exact encode_eq_map_byteOf_iff (ascii_append hmarker hspells)

theorem decode_marked (bs : Bytes) : decode (String.ofList (marked bs)) = .ok bs := by
  rw [decode_eq_ok_iff]
  refine ⟨['0', 'x'], by simp [markers], encode bs, spells_encode bs, ?_⟩
  rw [String.toList_ofList]
  rfl

theorem writes_iff {marks : List (List Char)} (hmarks : marks ⊆ markers) {bs : Bytes}
    {cs : List Char} :
    Writes marks bs cs ↔
      ∃ marker ∈ marks, ∃ digits, Spells digits bs ∧ Text.trim cs = marker ++ digits := by
  constructor
  · rintro ⟨hfront, hmarker, hdigits, hback⟩
    refine ⟨_, hmarker, _, hdigits, ?_⟩
    rw [Text.trim_append_blank hback, Text.trim_blank_append hfront]
    apply Text.trim_of_no_blank
    have hclear : ∀ marker ∈ markers, ∀ c ∈ marker, Text.isBlank c = false := by
      simp [markers, Text.isBlank]
    intro c hc
    rcases List.mem_append.1 hc with hc | hc
    · exact hclear _ (hmarks hmarker) c hc
    · simpa using hdigits.forall_mem (p := (!Text.isBlank ·)) (by decide) c hc
  · rintro ⟨marker, hmarker, digits, hspells, htrim⟩
    obtain ⟨⟨front, back, rfl, hfront, hback⟩, -, -⟩ := Text.trim_eq_iff.1 htrim
    exact .intro hfront hmarker hspells hback

theorem decode_trim_eq_ok_iff {cs : List Char} {bs : Bytes} :
    decode (String.ofList (Text.trim cs)) = .ok bs ↔ Writes markers bs cs := by
  rw [decode_eq_ok_iff, String.toList_ofList, writes_iff (List.Subset.refl _)]

/-! ## Rows of digits -/

/-- A row of digits of either case. -/
def IsRow (cs : List Char) : Prop :=
  ∀ c ∈ cs, ∃ d, hexadecimal.IsDigit c d

instance (cs : List Char) : Decidable (IsRow cs) :=
  decidable_of_iff ((cs.all fun c => (digitValue? c).isSome) = true) <| by
    simp only [IsRow, List.all_eq_true, Option.isSome_iff_exists, digitValue?_eq_some_iff]

/-- A row of digits writes a byte string if it can be cut into pairs. -/
theorem exists_spells_iff {cs : List Char} {n : Nat} :
    (∃ bs, Spells cs bs ∧ bs.length = n) ↔ IsRow cs ∧ cs.length = 2 * n := by
  constructor
  · rintro ⟨bs, hspells, rfl⟩
    refine ⟨?_, hspells.length⟩
    induction hspells with
    | nil => simp [IsRow]
    | cons hhigh hlow _ ih =>
      exact List.forall_mem_cons.2 ⟨⟨_, hhigh⟩, List.forall_mem_cons.2 ⟨⟨_, hlow⟩, ih⟩⟩
  · rintro ⟨hrow, hlength⟩
    induction n generalizing cs with
    | zero =>
      obtain rfl := List.length_eq_zero_iff.1 hlength
      exact ⟨[], .nil, rfl⟩
    | succ n ih =>
      match cs, hlength with
      | high :: low :: rest, hlength =>
        obtain ⟨⟨h, hhigh⟩, hrow⟩ := List.forall_mem_cons.1 hrow
        obtain ⟨⟨l, hlow⟩, hrow⟩ := List.forall_mem_cons.1 hrow
        simp only [List.length_cons] at hlength
        obtain ⟨bs, hspells, hbs⟩ := ih hrow (by omega)
        exact ⟨_, .cons hhigh hlow hspells, by rw [List.length_cons, hbs]⟩

theorem toLower_of_isDigit {c : Char} {d : Nat} (h : hexadecimal.IsDigit c d) :
    c.toLower = digit d := by
  have hlower : ∀ row ∈ hexadecimal.rows, ∀ d, d < 16 →
      (row.toList[d]?.all fun c => c.toLower == digit d) = true := by decide
  have hlt : d < 16 := h.lt
  obtain ⟨row, hrow, hd⟩ := h
  have := hlower row hrow d hlt
  rwa [hd, Option.all_some, beq_iff_eq] at this

/-- In lower case, the digits of a byte string are those that are written. -/
theorem Spells.map_toLower {cs : List Char} {bs : Bytes} (h : Spells cs bs) :
    cs.map Char.toLower = encode bs := by
  induction h with
  | nil => rfl
  | @cons high low h l cs bs hhigh hlow _ ih =>
    have hh : h < 16 := hhigh.lt
    have hl : l < 16 := hlow.lt
    have hbyte : (UInt8.ofNat (16 * h + l)).toNat = 16 * h + l := by
      rw [UInt8.toNat_ofNat']
      omega
    have hquotient : (16 * h + l) / 16 = h := by omega
    have hremainder : (16 * h + l) % 16 = l := by omega
    rw [List.map_cons, List.map_cons, ih, toLower_of_isDigit hhigh, toLower_of_isDigit hlow,
      encode, encode, List.flatMap_cons, byte, hbyte, hquotient, hremainder]
    rfl

/-! ## Lower case -/

/-- A text shows a byte string: the marker `0x`, and two lower-case digits for each byte. -/
def Shows (text : String) (bs : Bytes) : Prop :=
  ∃ digits, text.toList = '0' :: 'x' :: digits ∧ Spells digits bs ∧
    ∀ c ∈ digits, c ∈ "0123456789abcdef".toList

/-- Eight lower-case digits that write a number. -/
structure IsWord (digits : List Char) (n : Nat) : Prop where
  length : digits.length = 8
  lower : ∀ c ∈ digits, c ∈ "0123456789abcdef".toList
  writes : hexadecimal.Writes digits n

theorem map_toLower_of_lower {cs : List Char} (h : ∀ c ∈ cs, c ∈ "0123456789abcdef".toList) :
    cs.map Char.toLower = cs := by
  have hrow : ("0123456789abcdef".toList.all fun c => c.toLower == c) = true := by decide
  have hlower : ∀ c ∈ cs, c.toLower = c :=
    fun c hc => eq_of_beq (List.all_eq_true.1 hrow c (h c hc))
  rw [List.map_congr_left hlower, List.map_id']

theorem shows_iff {text : String} {bs : Bytes} :
    Shows text bs ↔ text = String.ofList (marked bs) := by
  constructor
  · rintro ⟨digits, htext, hspells, hlower⟩
    rw [← String.ofList_toList (s := text), htext, ← map_toLower_of_lower hlower,
      hspells.map_toLower, marked]
  · rintro rfl
    exact ⟨encode bs, String.toList_ofList, spells_encode bs, mem_lowerRow_of_mem_encode bs⟩

theorem map_toLower_of_digits {cs : List Char} {ds : List Nat}
    (h : List.Forall₂ hexadecimal.IsDigit cs ds) : cs.map Char.toLower = ds.map digit := by
  induction h with
  | nil => rfl
  | cons hd _ ih => rw [List.map_cons, List.map_cons, toLower_of_isDigit hd, ih]

theorem isWord_iff {digits : List Char} {w : UInt32} :
    IsWord digits w.toNat ↔ digits = word w := by
  have hword : IsWord (word w) w.toNat :=
    ⟨length_word w, mem_lowerRow_of_mem_encode _, value?_eq_some_iff.1 (value?_word w)⟩
  constructor
  · intro h
    obtain ⟨ds, hdigits, hds⟩ :=
      h.writes.digits_unique (h.length.trans hword.length.symm) hword.writes
    rw [← map_toLower_of_lower h.lower, ← map_toLower_of_lower hword.lower,
      map_toLower_of_digits hdigits, map_toLower_of_digits hds]
  · rintro rfl
    exact hword

theorem encode_inj {bs bs' : Bytes} (h : encode bs = encode bs') : bs = bs' := by
  have hspells := spells_encode bs
  rw [h] at hspells
  exact hspells.unique (spells_encode bs')

theorem Spells.eq_iff {cs cs' : List Char} {bs bs' : Bytes} (h : Spells cs bs)
    (h' : Spells cs' bs') : bs = bs' ↔ cs.map Char.toLower = cs'.map Char.toLower := by
  rw [h.map_toLower, h'.map_toLower]
  exact ⟨congrArg encode, encode_inj⟩

end Hex
end ScriptScope

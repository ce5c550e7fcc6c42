import ScriptScope.Proofs.Text.Hexadecimal
import ScriptScope.ScriptHash

/-!
# ScriptScope.Proofs.ScriptHash.Text

The texts of script hashes. Two readers drop a marker, one behind the other: the first drops `0x`,
the second `0x` or `0X`. What is left has to be digits, two for each byte, and the bytes stand in
the opposite order.

* `decodeBytes_dropMarker_eq_ok_iff`: so five markers may stand in front of the digits.
* `parse_eq_ok_iff`, `parse_eq_invalidLength_iff`, `exists_parse_eq_invalidHex_iff`: what becomes of
  a text, by the bytes that it writes.
* `parse_eq_parse_iff`: two texts are read as one hash when their digits differ in case only.
* `parse_text`: a script hash is read from its own text.
-/

namespace ScriptScope
namespace ScriptHash

/-- What may stand in front of the digits. -/
def markers : List (List Char) :=
  [[], ['0', 'x'], ['0', 'X'], ['0', 'x', '0', 'x'], ['0', 'x', '0', 'X']]

/-- A text that writes a byte string: a marker, then two digits for each byte. -/
def Writes (text : String) (bs : Bytes) : Prop :=
  ∃ marker ∈ markers, ∃ digits, Hex.Spells digits bs ∧ text.toList = marker ++ digits

theorem dropMarker_cases (bytes : Bytes) :
    bytes = ['0', 'x'].map Hex.byteOf ++ dropMarker bytes ∨ bytes = dropMarker bytes := by
  unfold dropMarker
  split
  · exact .inl rfl
  · exact .inr rfl

theorem dropMarker_of_spells {cs : List Char} {bs : Bytes} (h : Hex.Spells cs bs) :
    dropMarker (cs.map Hex.byteOf) = cs.map Hex.byteOf := by
  have hhex := Hex.dropMarker_of_spells h
  generalize cs.map Hex.byteOf = bytes at hhex
  unfold dropMarker
  split
  · -- the other reader would drop the marker as well
    have hlength := congrArg List.length hhex
    simp only [Hex.dropMarker, List.length_cons] at hlength
    omega
  · rfl

theorem decodeBytes_dropMarker_eq_ok_iff {text : String} {bs : Bytes} :
    Hex.decodeBytes (dropMarker (Utf8.encode text)) = .ok bs ↔ Writes text bs := by
  rw [Hex.decodeBytes_eq_ok_iff]
  have hascii : ∀ marker ∈ markers, ∀ digits, Hex.Spells digits bs →
      ∀ c ∈ marker ++ digits, c.toNat < 0x80 := by
    have hmarks : ∀ marker ∈ markers, ∀ c ∈ marker, c.toNat < 0x80 := by simp [markers]
    intro marker hmarker digits hspells c hc
    exact (List.mem_append.1 hc).elim (hmarks marker hmarker c) (hspells.ascii c)
  constructor
  · rintro ⟨inner, hinner, digits, hspells, hbytes⟩
    have hjoined : ∀ outer ∈ [[], ['0', 'x']], ∀ inner ∈ Hex.markers, outer ++ inner ∈ markers := by
      decide
    -- the first reader dropped `0x` or nothing
    obtain ⟨outer, houter, hwhole⟩ : ∃ outer ∈ [[], ['0', 'x']],
        Utf8.encode text = (outer ++ inner ++ digits).map Hex.byteOf := by
      rcases dropMarker_cases (Utf8.encode text) with hdrop | hdrop
      · refine ⟨['0', 'x'], by simp, ?_⟩
        rw [hdrop, hbytes, List.append_assoc]
        exact List.map_append.symm
      · exact ⟨[], by simp, hdrop.trans hbytes⟩
    have hmarker := hjoined outer houter inner hinner
    exact ⟨_, hmarker, digits, hspells,
      (Hex.encode_eq_map_byteOf_iff (hascii _ hmarker digits hspells)).1 hwhole⟩
  · rintro ⟨marker, hmarker, digits, hspells, htext⟩
    rw [(Hex.encode_eq_map_byteOf_iff (hascii marker hmarker digits hspells)).2 htext]
    simp only [markers, List.mem_cons, List.not_mem_nil, or_false] at hmarker
    rcases hmarker with rfl | rfl | rfl | rfl | rfl
    · exact ⟨[], by simp [Hex.markers], digits, hspells, dropMarker_of_spells hspells⟩
    · exact ⟨[], by simp [Hex.markers], digits, hspells, rfl⟩
    · exact ⟨['0', 'X'], by simp [Hex.markers], digits, hspells, rfl⟩
    · exact ⟨['0', 'x'], by simp [Hex.markers], digits, hspells, rfl⟩
    · exact ⟨['0', 'X'], by simp [Hex.markers], digits, hspells, rfl⟩

/-! ## What becomes of a text -/

variable {text : String}

theorem parse_eq_ok_iff {h : ScriptHash} : parse text = .ok h ↔ Writes text h.bytes.reverse := by
  rw [← decodeBytes_dropMarker_eq_ok_iff, parse]
  cases Hex.decodeBytes (dropMarker (Utf8.encode text)) with
  | error fault => simp
  | ok bs =>
    simp only [Except.ok.injEq]
    split
    next hlength =>
      rw [Except.ok.injEq, ScriptHash.mk.injEq, List.reverse_eq_iff]
    next hlength =>
      refine iff_of_false (by simp) fun hbs => hlength ?_
      rw [hbs, List.length_reverse, h.length_eq]

theorem parse_eq_invalidLength_iff {n : Nat} :
    parse text = .error (.invalidLength n) ↔ n ≠ 20 ∧ ∃ bs, Writes text bs ∧ bs.length = n := by
  simp only [← decodeBytes_dropMarker_eq_ok_iff]
  rw [parse]
  cases Hex.decodeBytes (dropMarker (Utf8.encode text)) with
  | error fault => simp
  | ok bs =>
    simp only [Except.ok.injEq, exists_eq_left']
    split
    next hlength =>
      exact iff_of_false (by simp) fun h => h.1 (h.2.symm.trans hlength)
    next hlength =>
      rw [Except.error.injEq, Fault.invalidLength.injEq]
      exact ⟨fun hn => ⟨hn ▸ hlength, hn⟩, fun h => h.2⟩

theorem exists_parse_eq_invalidHex_iff :
    (∃ fault, parse text = .error (.invalidHex fault)) ↔ ∀ bs, ¬Writes text bs := by
  simp only [← decodeBytes_dropMarker_eq_ok_iff]
  rw [parse]
  cases Hex.decodeBytes (dropMarker (Utf8.encode text)) with
  | error fault => simp
  | ok bs =>
    refine iff_of_false ?_ fun hnone => hnone bs rfl
    rintro ⟨fault, h⟩
    simp only at h
    split at h <;> cases h

/-- One of the markers and a row of digits behind it. -/
def Marked (text : String) (digits : List Char) : Prop :=
  Hex.IsRow digits ∧ ∃ marker ∈ markers, text.toList = marker ++ digits

/-- A text that writes so many bytes shows twice as many digits. -/
theorem exists_writes_iff {n : Nat} :
    (∃ bs, Writes text bs ∧ bs.length = n) ↔
      ∃ digits, Marked text digits ∧ digits.length = 2 * n := by
  constructor
  · rintro ⟨bs, ⟨marker, hmarker, digits, hspells, htext⟩, hlength⟩
    obtain ⟨hrow, hdigits⟩ := Hex.exists_spells_iff.1 ⟨bs, hspells, hlength⟩
    exact ⟨digits, ⟨hrow, marker, hmarker, htext⟩, hdigits⟩
  · rintro ⟨digits, ⟨hrow, marker, hmarker, htext⟩, hdigits⟩
    obtain ⟨bs, hspells, hlength⟩ := Hex.exists_spells_iff.2 ⟨hrow, hdigits⟩
    exact ⟨bs, ⟨marker, hmarker, digits, hspells, htext⟩, hlength⟩

theorem exists_parse_eq_ok_iff :
    (∃ h, parse text = .ok h) ↔ ∃ digits, Marked text digits ∧ digits.length = 40 := by
  rw [← exists_writes_iff (n := 20)]
  simp only [parse_eq_ok_iff]
  constructor
  · rintro ⟨h, hwrites⟩
    exact ⟨_, hwrites, by rw [List.length_reverse, h.length_eq]⟩
  · rintro ⟨bs, hwrites, hlength⟩
    refine ⟨⟨bs.reverse, by rw [List.length_reverse, hlength]⟩, ?_⟩
    rwa [List.reverse_reverse]

theorem forall_not_writes_iff :
    (∀ bs, ¬Writes text bs) ↔ ∀ digits, Marked text digits → digits.length % 2 = 1 := by
  constructor
  · intro hnone digits hmarked
    refine Nat.mod_two_ne_zero.1 fun heven => ?_
    obtain ⟨bs, hwrites, -⟩ := exists_writes_iff.2
      ⟨digits, hmarked, (Nat.mul_div_cancel' (Nat.dvd_of_mod_eq_zero heven)).symm⟩
    exact hnone bs hwrites
  · intro hodd bs hwrites
    obtain ⟨digits, hmarked, hlength⟩ := exists_writes_iff.1 ⟨bs, hwrites, rfl⟩
    have := hodd digits hmarked
    omega

/-- Two texts are read as one hash if and only if their digits differ in case only. -/
theorem parse_eq_parse_iff {other : String} {digits digits' : List Char}
    (h : Marked text digits) (hlength : digits.length = 40) (h' : Marked other digits')
    (hlength' : digits'.length = 40) :
    parse text = parse other ↔ digits.map Char.toLower = digits'.map Char.toLower := by
  have hread : ∀ {text digits}, Marked text digits → digits.length = 40 →
      ∃ hash : ScriptHash, parse text = .ok hash ∧ Hex.Spells digits hash.bytes.reverse := by
    rintro text digits ⟨hrow, marker, hmarker, htext⟩ hlength
    obtain ⟨bs, hspells, hbs⟩ := (Hex.exists_spells_iff (n := 20)).2 ⟨hrow, hlength⟩
    refine ⟨⟨bs.reverse, by rw [List.length_reverse, hbs]⟩, parse_eq_ok_iff.2 ?_, ?_⟩
    · rw [List.reverse_reverse]
      exact ⟨marker, hmarker, digits, hspells, htext⟩
    · rwa [List.reverse_reverse]
  obtain ⟨hash, hparse, hspells⟩ := hread h hlength
  obtain ⟨hash', hparse', hspells'⟩ := hread h' hlength'
  rw [hparse, hparse', Except.ok.injEq, ScriptHash.mk.injEq, ← hspells.eq_iff hspells',
    List.reverse_inj]

theorem text_toList (h : ScriptHash) :
    h.text.toList = '0' :: 'x' :: Hex.encode h.bytes.reverse := by
  rw [text, String.toList_ofList, chars, Hex.marked]

theorem parse_text (h : ScriptHash) : parse h.text = .ok h := by
  rw [parse_eq_ok_iff]
  exact ⟨['0', 'x'], by simp [markers], _, Hex.spells_encode _, h.text_toList⟩

end ScriptHash
end ScriptScope

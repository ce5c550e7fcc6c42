import ScriptScope.DebugInfo.File
import ScriptScope.Proofs.Text.Numerals

/-!
# ScriptScope.Proofs.DebugInfo.Grammar

The texts inside a file of debug information, said apart from their readers. Blanks may stand around
each number of a range, around the address and the document of a sequence point, and around each of
its two places, but not inside a place.

The readers cut a text at the first mark of a kind. The grammar need not say so: no number holds a
mark, so a text of the grammar has no other cut. What stands behind the document of a sequence point
is looked at only when the document exists; `Headed` are the texts that get so far.

* `read_eq_some_iff`: a number may have one plus sign in front.
* `readRange?_eq_some_iff`, `readPosition?_eq_some_iff`: ranges and places.
* `readPoint_eq_ok_iff`, `readPoint_eq_error_iff`: sequence points, and the faults of other texts.
-/

namespace ScriptScope

open Radix

/-! ## Numbers -/

namespace Decimal

/-- A number below a limit, in digits with at most one plus sign in front. -/
inductive Numeral (limit n : Nat) : List Char → Prop where
  | plain {digits : List Char} (hne : digits ≠ []) (hdigits : decimal.Writes digits n)
    (hlt : n < limit) : Numeral limit n digits
  | plus {digits : List Char} (hne : digits ≠ []) (hdigits : decimal.Writes digits n)
    (hlt : n < limit) : Numeral limit n ('+' :: digits)

variable {limit n : Nat} {cs : List Char}

theorem read_eq_some_iff : read limit cs = some n ↔ Numeral limit n cs := by
  constructor
  · intro h
    unfold read at h
    split at h
    · obtain ⟨hne, hdigits, hlt⟩ := readDigits_eq_some_iff.1 h
      exact .plus hne hdigits hlt
    · obtain ⟨hne, hdigits, hlt⟩ := readDigits_eq_some_iff.1 h
      exact .plain hne hdigits hlt
  · rintro (⟨hne, hdigits, hlt⟩ | ⟨hne, hdigits, hlt⟩)
    · have hplus : cs.head? ≠ some '+' :=
        fun hhead => hdigits.not_mem (by decide) (List.mem_of_head? hhead)
      rw [read_of_not_plus hplus]
      exact readDigits_eq_some_iff.2 ⟨hne, hdigits, hlt⟩
    · exact readDigits_eq_some_iff.2 ⟨hne, hdigits, hlt⟩

/-- What is so of the plus sign and of every digit is so of every character of a number. -/
theorem Numeral.forall_mem {p : Char → Bool} (h : Numeral limit n cs)
    (hrows : (("+" :: decimal.rows).all fun row => row.toList.all p) = true) :
    ∀ c ∈ cs, p c = true := by
  rw [List.all_cons, Bool.and_eq_true] at hrows
  obtain ⟨hplus, hrows⟩ := hrows
  cases h with
  | plain _ hdigits _ => exact hdigits.forall_mem hrows
  | plus _ hdigits _ =>
    refine List.forall_mem_cons.2 ⟨?_, hdigits.forall_mem hrows⟩
    simpa using hplus

theorem Numeral.not_isBlank (h : Numeral limit n cs) : ∀ c ∈ cs, Text.isBlank c = false := by
  intro c hc
  simpa using h.forall_mem (p := (!Text.isBlank ·)) (by decide) c hc

/-- A mark that is neither a plus sign nor a digit. -/
def IsMark (mark : Char) : Prop :=
  (("+" :: decimal.rows).all fun row => row.toList.all (· != mark)) = true

instance (mark : Char) : Decidable (IsMark mark) :=
  inferInstanceAs (Decidable (_ = true))

theorem Numeral.not_mem {mark : Char} (h : Numeral limit n cs) (hmark : IsMark mark) :
    mark ∉ cs := by
  intro hmem
  simpa using h.forall_mem hmark mark hmem

end Decimal

namespace Text

/-- A text with blanks around it. -/
inductive Padded (p : List Char → Prop) : List Char → Prop where
  | intro {front inner back : List Char} (hfront : ∀ c ∈ front, isBlank c = true) (hinner : p inner)
    (hback : ∀ c ∈ back, isBlank c = true) : Padded p (front ++ inner ++ back)

variable {p : List Char → Prop} {cs : List Char}

theorem padded_iff (hp : ∀ inner, p inner → ∀ c ∈ inner, isBlank c = false) :
    Padded p cs ↔ p (trim cs) := by
  constructor
  · rintro ⟨hfront, hinner, hback⟩
    rwa [trim_append_blank hback, trim_blank_append hfront, trim_of_no_blank (hp _ hinner)]
  · intro h
    obtain ⟨front, back, hcs, hfront, hback⟩ := (trims_trim cs).padded
    rw [hcs]
    exact .intro hfront h hback

theorem Padded.not_mem {mark : Char} (h : Padded p cs) (hmark : isBlank mark = false)
    (hp : ∀ inner, p inner → mark ∉ inner) : mark ∉ cs := by
  have hnot : ∀ pad : List Char, (∀ c ∈ pad, isBlank c = true) → mark ∉ pad := by
    intro pad hpad hmem
    rw [hpad mark hmem] at hmark
    cases hmark
  obtain ⟨hfront, hinner, hback⟩ := h
  rw [List.mem_append, List.mem_append]
  rintro ((hmem | hmem) | hmem)
  · exact hnot _ hfront hmem
  · exact hp _ hinner hmem
  · exact hnot _ hback hmem

end Text

namespace DebugFile

open Decimal Text

variable {cs : List Char}

/-! ## Addresses and ranges -/

/-- A number of sixty-four bits with blanks around it. -/
def Address (n : Nat) : List Char → Prop :=
  Padded (Numeral limit64 n)

theorem readAddress?_eq_some_iff {n : Nat} : readAddress? cs = some n ↔ Address n cs := by
  rw [Address, padded_iff fun _ h => h.not_isBlank, readAddress?, read_eq_some_iff]

theorem Address.not_mem {n : Nat} {mark : Char} (h : Address n cs) (hblank : isBlank mark = false)
    (hmark : IsMark mark) : mark ∉ cs :=
  Padded.not_mem h hblank fun _ hinner => hinner.not_mem hmark

inductive Range (start stop : Nat) : List Char → Prop where
  | intro {before after : List Char} (hstart : Address start before) (hstop : Address stop after) :
    Range start stop (before ++ '-' :: after)

theorem readRange?_eq_some_iff {start stop : Nat} :
    readRange? cs = some (start, stop) ↔ Range start stop cs := by
  constructor
  · intro h
    obtain ⟨⟨before, after⟩, hcut, h⟩ := Option.bind_eq_some_iff.1 h
    obtain ⟨m, hm, h⟩ := Option.bind_eq_some_iff.1 h
    obtain ⟨n, hn, h⟩ := Option.bind_eq_some_iff.1 h
    cases h
    obtain ⟨rfl, -⟩ := splitFirst_eq_some_iff.1 hcut
    exact .intro (readAddress?_eq_some_iff.1 hm) (readAddress?_eq_some_iff.1 hn)
  · rintro ⟨hstart, hstop⟩
    rename_i before after
    have hdash : '-' ∉ before := hstart.not_mem (by decide) (by decide)
    rw [readRange?, splitFirst_append hdash]
    simp only [Option.bind_eq_bind, Option.bind_some, readAddress?_eq_some_iff.2 hstart,
      readAddress?_eq_some_iff.2 hstop, Option.pure_def]

/-! ## Places -/

/-- A line and a column of thirty-two bits, with nothing but a colon between. -/
inductive Place (p : SourcePosition) : List Char → Prop where
  | intro {line column : List Char} (hline : Numeral limit32 p.line line)
    (hcolumn : Numeral limit32 p.column column) : Place p (line ++ ':' :: column)

/-- What is so of the colon, the plus sign and every digit is so of every character of a place. -/
theorem Place.forall_mem {p : SourcePosition} {q : Char → Bool} (h : Place p cs)
    (hcolon : q ':' = true)
    (hrows : (("+" :: decimal.rows).all fun row => row.toList.all q) = true) :
    ∀ c ∈ cs, q c = true := by
  obtain ⟨hline, hcolumn⟩ := h
  intro c hc
  rcases List.mem_append.1 hc with hc | hc
  · exact hline.forall_mem hrows c hc
  · rcases List.mem_cons.1 hc with rfl | hc
    · exact hcolon
    · exact hcolumn.forall_mem hrows c hc

theorem Place.not_isBlank {p : SourcePosition} (h : Place p cs) :
    ∀ c ∈ cs, isBlank c = false := by
  intro c hc
  simpa using h.forall_mem (q := (!isBlank ·)) (by decide) (by decide) c hc

theorem Place.not_mem_dash {p : SourcePosition} (h : Place p cs) : '-' ∉ cs := by
  intro hmem
  simpa using h.forall_mem (q := (· != '-')) (by decide) (by decide) '-' hmem

theorem readPosition?_eq_some_iff {p : SourcePosition} :
    readPosition? cs = some p ↔ Padded (Place p) cs := by
  rw [padded_iff fun _ h => h.not_isBlank]
  constructor
  · intro h
    obtain ⟨⟨line, column⟩, hcut, h⟩ := Option.bind_eq_some_iff.1 h
    obtain ⟨m, hm, h⟩ := Option.bind_eq_some_iff.1 h
    obtain ⟨n, hn, h⟩ := Option.bind_eq_some_iff.1 h
    cases h
    rw [(splitFirst_eq_some_iff.1 hcut).1]
    exact .intro (read_eq_some_iff.1 hm) (read_eq_some_iff.1 hn)
  · intro h
    generalize htrim : trim cs = inner at h
    obtain ⟨hline, hcolumn⟩ := h
    rename_i line column
    have hcolon : ':' ∉ line := hline.not_mem (by decide)
    rw [readPosition?, htrim, splitFirst_append hcolon]
    simp only [Option.bind_eq_bind, Option.bind_some, read_eq_some_iff.2 hline,
      read_eq_some_iff.2 hcolumn, Option.pure_def]

/-! ## Sequence points -/

inductive Point (p : SequencePoint) : List Char → Prop where
  | intro {address document start stop : List Char} (haddress : Address p.address address)
    (hdocument : Address p.document document) (hstart : Padded (Place p.start) start)
    (hstop : Padded (Place p.stop) stop) :
    Point p (address ++ '[' :: (document ++ ']' :: (start ++ '-' :: stop)))

/-- A sequence point as far as its document, and a dash somewhere behind it. -/
inductive Headed (address document : Nat) : List Char → Prop where
  | intro {before between after : List Char} (haddress : Address address before)
    (hdocument : Address document between) (hdash : '-' ∈ after) :
    Headed address document (before ++ '[' :: (between ++ ']' :: after))

theorem splitPoint?_eq_some_iff {address document start stop : List Char} :
    splitPoint? cs = some (address, document, start, stop) ↔
      cs = address ++ '[' :: (document ++ ']' :: (start ++ '-' :: stop)) ∧
        '[' ∉ address ∧ ']' ∉ document ∧ '-' ∉ start := by
  constructor
  · intro h
    obtain ⟨⟨a, rest⟩, hrest, h⟩ := Option.bind_eq_some_iff.1 h
    obtain ⟨⟨d, range⟩, hrange, h⟩ := Option.bind_eq_some_iff.1 h
    obtain ⟨⟨s, e⟩, hends, h⟩ := Option.bind_eq_some_iff.1 h
    cases h
    obtain ⟨rfl, haddress⟩ := splitFirst_eq_some_iff.1 hrest
    obtain ⟨rfl, hdocument⟩ := splitFirst_eq_some_iff.1 hrange
    obtain ⟨rfl, hstart⟩ := splitFirst_eq_some_iff.1 hends
    exact ⟨rfl, haddress, hdocument, hstart⟩
  · rintro ⟨rfl, haddress, hdocument, hstart⟩
    rw [splitPoint?, splitFirst_append haddress]
    simp only [Option.bind_eq_bind, Option.bind_some, splitFirst_append hdocument,
      splitFirst_append hstart, Option.pure_def]

theorem headed_iff {address document : Nat} :
    Headed address document cs ↔ ∃ before between start stop,
      splitPoint? cs = some (before, between, start, stop) ∧
        readAddress? before = some address ∧ readAddress? between = some document := by
  simp only [splitPoint?_eq_some_iff, readAddress?_eq_some_iff]
  constructor
  · rintro ⟨haddress, hdocument, hdash⟩
    obtain ⟨start, stop, rfl, hstart⟩ := List.eq_append_cons_of_mem hdash
    exact ⟨_, _, start, stop, ⟨rfl, haddress.not_mem (by decide) (by decide),
      hdocument.not_mem (by decide) (by decide), hstart⟩, haddress, hdocument⟩
  · rintro ⟨before, between, start, stop, ⟨rfl, -⟩, haddress, hdocument⟩
    exact .intro haddress hdocument (by simp)

theorem point_iff {p : SequencePoint} :
    Point p cs ↔ ∃ address document start stop,
      splitPoint? cs = some (address, document, start, stop) ∧
        readAddress? address = some p.address ∧ readAddress? document = some p.document ∧
        readPosition? start = some p.start ∧ readPosition? stop = some p.stop := by
  simp only [splitPoint?_eq_some_iff, readAddress?_eq_some_iff, readPosition?_eq_some_iff]
  constructor
  · rintro ⟨haddress, hdocument, hstart, hstop⟩
    rename_i start stop
    have hdash : '-' ∉ start := Padded.not_mem hstart (by decide) fun _ h => h.not_mem_dash
    exact ⟨_, _, _, _, ⟨rfl, haddress.not_mem (by decide) (by decide),
      hdocument.not_mem (by decide) (by decide), hdash⟩, haddress, hdocument, hstart, hstop⟩
  · rintro ⟨address, document, start, stop, ⟨rfl, -⟩, haddress, hdocument, hstart, hstop⟩
    exact .intro haddress hdocument hstart hstop

variable {documents : Nat} {text : String}

theorem readPoint_eq_ok_iff {p : SequencePoint} :
    readPoint documents text = .ok p ↔ Point p text.toList ∧ p.document < documents := by
  rw [point_iff]
  constructor
  · intro h
    unfold readPoint at h
    split at h
    · cases h
    next address document start stop hsplit =>
    split at h
    next haddress hdocument =>
      split at h
      · cases h
      next hlt =>
      split at h
      next hstart hstop =>
        cases h
        exact ⟨⟨_, _, _, _, hsplit, haddress, hdocument, hstart, hstop⟩, Nat.not_le.1 hlt⟩
      · cases h
    · cases h
  · rintro ⟨⟨address, document, start, stop, hsplit, haddress, hdocument, hstart, hstop⟩, hlt⟩
    rw [readPoint, hsplit]
    simp only [haddress, hdocument, if_neg (Nat.not_le.2 hlt), hstart, hstop]

/-- The fault of a text that is no sequence point of a file with so many documents. A document that
is missing is reported before the places are looked at. -/
inductive PointFault (documents : Nat) (text : String) : DebugFault → Prop where
  | head (hhead : ∀ address document, ¬Headed address document text.toList) :
    PointFault documents text (.invalidSequencePoint text)
  | document {address document : Nat} (hhead : Headed address document text.toList)
    (hle : documents ≤ document) : PointFault documents text (.unknownDocument text document)
  | places {address document : Nat} (hhead : Headed address document text.toList)
    (hlt : document < documents) (hplaces : ∀ p, ¬Point p text.toList) :
    PointFault documents text (.invalidSequencePoint text)

theorem readPoint_of_pointFault {fault : DebugFault} (h : PointFault documents text fault) :
    readPoint documents text = .error fault := by
  cases h with
  | head hhead =>
    rw [readPoint]
    split
    · rfl
    next hsplit =>
    split
    next haddress hdocument =>
      exact absurd (headed_iff.2 ⟨_, _, _, _, hsplit, haddress, hdocument⟩) (hhead _ _)
    · rfl
  | document hhead hle =>
    obtain ⟨_, _, _, _, hsplit, haddress, hdocument⟩ := headed_iff.1 hhead
    rw [readPoint, hsplit]
    simp only [haddress, hdocument, if_pos hle]
  | places hhead hlt hplaces =>
    obtain ⟨_, _, _, _, hsplit, haddress, hdocument⟩ := headed_iff.1 hhead
    rw [readPoint, hsplit]
    simp only [haddress, hdocument, if_neg (Nat.not_le.2 hlt)]
    split
    next hstart hstop =>
      exact absurd (point_iff.2 ⟨_, _, _, _, hsplit, haddress, hdocument, hstart, hstop⟩)
        (hplaces ⟨_, _, _, _⟩)
    · rfl

theorem Headed.unique {address document address' document' : Nat} (h : Headed address document cs)
    (h' : Headed address' document' cs) : address = address' ∧ document = document' := by
  obtain ⟨_, _, _, _, hsplit, haddress, hdocument⟩ := headed_iff.1 h
  obtain ⟨_, _, _, _, hsplit', haddress', hdocument'⟩ := headed_iff.1 h'
  cases hsplit.symm.trans hsplit'
  exact ⟨Option.some.inj (haddress.symm.trans haddress'),
    Option.some.inj (hdocument.symm.trans hdocument')⟩

theorem Point.headed {p : SequencePoint} (h : Point p cs) : Headed p.address p.document cs := by
  obtain ⟨haddress, hdocument, -, -⟩ := h
  exact .intro haddress hdocument (by simp)

theorem exists_pointFault (h : ∀ p, Point p text.toList → documents ≤ p.document) :
    ∃ fault, PointFault documents text fault := by
  by_cases hhead : ∃ address document, Headed address document text.toList
  · obtain ⟨address, document, hhead⟩ := hhead
    by_cases hle : documents ≤ document
    · exact ⟨_, .document hhead hle⟩
    · refine ⟨_, .places hhead (Nat.not_le.1 hle) fun p hpoint => hle ?_⟩
      rw [(hhead.unique hpoint.headed).2]
      exact h p hpoint
  · exact ⟨_, .head fun address document h => hhead ⟨address, document, h⟩⟩

theorem readPoint_eq_error_iff {fault : DebugFault} :
    readPoint documents text = .error fault ↔ PointFault documents text fault := by
  refine ⟨fun h => ?_, readPoint_of_pointFault⟩
  have hnone : ∀ p, Point p text.toList → documents ≤ p.document := by
    intro p hpoint
    refine Nat.not_lt.1 fun hlt => ?_
    cases h.symm.trans (readPoint_eq_ok_iff.2 ⟨hpoint, hlt⟩)
  obtain ⟨fault', hfault⟩ := exists_pointFault hnone
  cases h.symm.trans (readPoint_of_pointFault hfault)
  exact hfault

end DebugFile
end ScriptScope

import Mathlib.Data.List.Nodup
import ScriptScope.DebugInfo.File
import ScriptScope.DebugInfo.Json
import ScriptScope.Proofs.Text.Numerals

/-!
# ScriptScope.Proofs.DebugInfo.RoundTrip

A method as it is written into a file of debug information, and read from there.

Each text is cut at the first mark of its kind, so it is read back when no part before a mark holds
the mark itself. A file may list the sequence points in any order; reading sorts them, and keeps the
order of those that begin at one address.

* `readDeclaration_declarationText`, `readPoint_pointText`: the texts one by one.
* `sortPoints_eq_iff`: what sorting gives, said without sorting.
* `method_entryOf`: a method that is written is read back, wherever its sequence points stood.
-/

namespace ScriptScope

/-- A declaration that the file can hold: a comma would end the name, and blanks at the ends of a
name or a type would be lost. -/
structure Declaration.Plain (d : Declaration) : Prop where
  no_comma : ',' ∉ d.name.toList
  name : Text.Trims d.name.toList d.name.toList
  typeName : Text.Trims d.typeName.toList d.typeName.toList

/-- The same sequence points in ascending order of their addresses, those of one address in the
order in which they were. -/
structure SequencePoint.SortsTo (points sorted : List SequencePoint) : Prop where
  ascending : sorted.Pairwise fun a b => a.address ≤ b.address
  stable : ∀ address, sorted.filter (·.address = address) = points.filter (·.address = address)

namespace DebugFile

open DebugInfo

/-! ## Texts -/

theorem readAddress?_digits {n : Nat} (h : n < Decimal.limit64) :
    readAddress? (Decimal.digits n) = some n := by
  rw [readAddress?, Text.trim_of_no_blank (Decimal.not_isBlank_of_mem_digits n),
    Decimal.read_digits h]

theorem readRange?_rangeText {start stop : Nat} (hstart : start < Decimal.limit64)
    (hstop : stop < Decimal.limit64) :
    readRange? (rangeText start stop).toList = some (start, stop) := by
  have hcut := Text.splitFirst_append (Decimal.not_mem_digits (c := '-') (by decide) start)
    (Decimal.digits stop)
  rw [readRange?, rangeText, String.toList_ofList, hcut]
  simp only [Option.bind_eq_bind, Option.bind_some, readAddress?_digits hstart,
    readAddress?_digits hstop, Option.pure_def]

theorem not_isBlank_of_mem_positionChars (p : SourcePosition) :
    ∀ c ∈ positionChars p, Text.isBlank c = false := by
  intro c hc
  rcases List.mem_append.1 hc with hc | hc
  · exact Decimal.not_isBlank_of_mem_digits p.line c hc
  · rcases List.mem_cons.1 hc with rfl | hc
    · decide
    · exact Decimal.not_isBlank_of_mem_digits p.column c hc

theorem readPosition?_positionChars {p : SourcePosition} (h : p.Fits) :
    readPosition? (positionChars p) = some p := by
  have hcut := Text.splitFirst_append (Decimal.not_mem_digits (c := ':') (by decide) p.line)
    (Decimal.digits p.column)
  rw [readPosition?, Text.trim_of_no_blank (not_isBlank_of_mem_positionChars p), positionChars,
    hcut]
  simp only [Option.bind_eq_bind, Option.bind_some, Decimal.read_digits h.1,
    Decimal.read_digits h.2, Option.pure_def]

theorem splitPoint?_pointText (p : SequencePoint) :
    splitPoint? (pointText p).toList = some (Decimal.digits p.address, Decimal.digits p.document,
      positionChars p.start, positionChars p.stop) := by
  have haddress := Decimal.not_mem_digits (c := '[') (by decide) p.address
  have hdocument := Decimal.not_mem_digits (c := ']') (by decide) p.document
  have hminus := Decimal.not_mem_digits (c := '-') (by decide)
  have hstart : '-' ∉ positionChars p.start := by
    simp [positionChars, hminus p.start.line, hminus p.start.column]
  rw [splitPoint?, pointText, String.toList_ofList]
  simp only [List.append_assoc, List.cons_append, Text.splitFirst_append haddress,
    Text.splitFirst_append hdocument, Text.splitFirst_append hstart, Option.bind_eq_bind,
    Option.bind_some, Option.pure_def]

theorem readPoint_pointText {p : SequencePoint} {documents : Nat} (h : p.Fits)
    (hdocument : p.document < documents) : readPoint documents (pointText p) = .ok p := by
  obtain ⟨haddress, hindex, hstart, hstop⟩ := h
  rw [readPoint, splitPoint?_pointText]
  simp only [readAddress?_digits haddress, readAddress?_digits hindex,
    if_neg (Nat.not_le.2 hdocument), readPosition?_positionChars hstart,
    readPosition?_positionChars hstop]

theorem readDeclaration_declarationText {d : Declaration} (h : d.Plain) :
    readDeclaration (declarationText d) = .ok d := by
  have htext : (declarationText d).toList = d.name.toList ++ ',' :: d.typeName.toList := by
    simp [declarationText]
  rw [readDeclaration, htext, Text.splitFirst_append h.no_comma]
  simp only [Text.trim_eq_iff.2 h.name, Text.trim_eq_iff.2 h.typeName, String.ofList_toList]

/-! ## Sorting -/

theorem address_le_trans (a b c : SequencePoint) (hab : decide (a.address ≤ b.address) = true)
    (hbc : decide (b.address ≤ c.address) = true) : decide (a.address ≤ c.address) = true := by
  rw [decide_eq_true_eq] at hab hbc ⊢
  omega

theorem address_le_total (a b : SequencePoint) :
    (decide (a.address ≤ b.address) || decide (b.address ≤ a.address)) = true := by
  rw [Bool.or_eq_true, decide_eq_true_eq, decide_eq_true_eq]
  omega

theorem ascending_sortPoints (points : List SequencePoint) :
    (sortPoints points).Pairwise fun a b => a.address ≤ b.address := by
  have h := List.pairwise_mergeSort address_le_trans address_le_total points
  exact h.imp of_decide_eq_true

theorem filter_sortPoints (points : List SequencePoint) (address : Nat) :
    (sortPoints points).filter (·.address = address) =
      points.filter (·.address = address) := by
  let here := points.filter (·.address = address)
  have hsorted : here.Pairwise fun a b => decide (a.address ≤ b.address) = true := by
    apply List.pairwise_of_forall_mem_list
    intro a ha b hb
    have ha := of_decide_eq_true (List.mem_filter.1 ha).2
    have hb := of_decide_eq_true (List.mem_filter.1 hb).2
    rw [ha, hb]
    exact decide_eq_true (Nat.le_refl _)
  -- sorting keeps any sublist that is in order already, and adds nothing
  have hkept : here.Sublist (sortPoints points) :=
    List.sublist_mergeSort address_le_trans address_le_total hsorted List.filter_sublist
  have hinner := hkept.filter (·.address = address)
  rw [List.filter_filter] at hinner
  simp only [Bool.and_self] at hinner
  symm
  apply hinner.eq_of_length
  exact ((List.mergeSort_perm points _).filter _).length_eq.symm

variable {xs ys : List SequencePoint}

theorem mem_iff_of_filter_eq
    (h : ∀ address, xs.filter (·.address = address) = ys.filter (·.address = address))
    (p : SequencePoint) : p ∈ xs ↔ p ∈ ys := by
  have hp : ∀ zs : List SequencePoint, p ∈ zs ↔ p ∈ zs.filter (·.address = p.address) := by
    intro zs
    simp [List.mem_filter]
  rw [hp xs, hp ys, h]

theorem eq_of_filter_eq (hxs : xs.Pairwise fun a b => a.address ≤ b.address)
    (hys : ys.Pairwise fun a b => a.address ≤ b.address)
    (h : ∀ address, xs.filter (·.address = address) = ys.filter (·.address = address)) :
    xs = ys := by
  have hmem := mem_iff_of_filter_eq h
  induction xs generalizing ys with
  | nil =>
    cases ys with
    | nil => rfl
    | cons y ys => exact absurd ((hmem y).2 List.mem_cons_self) List.not_mem_nil
  | cons x xs ih =>
    cases ys with
    | nil => exact absurd ((hmem x).1 List.mem_cons_self) List.not_mem_nil
    | cons y ys =>
      -- both heads have the least address, so both are the first point of that address
      have hle : x.address ≤ y.address := by
        rcases List.mem_cons.1 ((hmem y).2 List.mem_cons_self) with rfl | hy
        · exact Nat.le_refl _
        · exact List.rel_of_pairwise_cons hxs hy
      have hge : y.address ≤ x.address := by
        rcases List.mem_cons.1 ((hmem x).1 List.mem_cons_self) with rfl | hx
        · exact Nat.le_refl _
        · exact List.rel_of_pairwise_cons hys hx
      have haddress : y.address = x.address := Nat.le_antisymm hge hle
      have hhead := h x.address
      rw [List.filter_cons_of_pos (by simp), List.filter_cons_of_pos (by simp [haddress])] at hhead
      obtain ⟨rfl, htail⟩ := List.cons.inj hhead
      have hrest : ∀ address,
          xs.filter (·.address = address) = ys.filter (·.address = address) := by
        intro address
        by_cases hx : x.address = address
        · rw [← hx, htail]
        · have hother := h address
          rwa [List.filter_cons_of_neg (by simpa using hx),
            List.filter_cons_of_neg (by simpa using hx)] at hother
      rw [ih hxs.of_cons hys.of_cons hrest (mem_iff_of_filter_eq hrest)]

theorem sortPoints_eq_iff {points sorted : List SequencePoint} :
    sortPoints points = sorted ↔ SequencePoint.SortsTo points sorted := by
  constructor
  · rintro rfl
    exact ⟨ascending_sortPoints points, filter_sortPoints points⟩
  · intro h
    apply eq_of_filter_eq (ascending_sortPoints points) h.ascending
    intro address
    rw [filter_sortPoints, h.stable]

/-- Where every address occurs once there is only one order to sort to. -/
theorem sortsTo_of_perm {points sorted : List SequencePoint} (hperm : points.Perm sorted)
    (hascending : sorted.Pairwise fun a b => a.address ≤ b.address)
    (hdistinct : (sorted.map SequencePoint.address).Nodup) :
    SequencePoint.SortsTo points sorted := by
  have hsorted : (sortPoints points).Perm sorted := (List.mergeSort_perm points _).trans hperm
  rw [← sortPoints_eq_iff]
  refine hsorted.eq_of_pairwise ?_ (ascending_sortPoints points) hascending
  intro a b ha hb hab hba
  exact List.inj_on_of_nodup_map hdistinct (hsorted.mem_iff.1 ha) hb (Nat.le_antisymm hab hba)

/-! ## Methods -/

theorem mapM_map_eq_ok {read : β → Except ε α} {write : α → β} {as : List α}
    (h : ∀ a ∈ as, read (write a) = .ok a) : (as.map write).mapM read = .ok as := by
  induction as with
  | nil => rfl
  | cons a as ih =>
    rw [List.map_cons, List.mapM_cons, h a List.mem_cons_self,
      ih fun other hmem => h other (List.mem_cons_of_mem _ hmem)]
    rfl

variable {m : Method} {documents : Nat} {points : List SequencePoint}

theorem method_entryOf_of_sortsTo (hplain : ∀ d ∈ m.slots, d.Plain) (hfits : m.Fits)
    (hdocuments : ∀ p ∈ m.sequencePoints, p.document < documents)
    (hpoints : SequencePoint.SortsTo points m.sequencePoints) :
    (entryOf m points).method m.scriptHash documents = .ok m := by
  obtain ⟨hstart, hstop, hfits⟩ := hfits
  have hread : (points.map pointText).mapM (readPoint documents) = .ok points := by
    apply mapM_map_eq_ok
    intro p hp
    have hmem := (mem_iff_of_filter_eq hpoints.stable p).2 hp
    exact readPoint_pointText (hfits p hmem) (hdocuments p hmem)
  have hslots : ∀ ds : List Declaration, (∀ d ∈ ds, d ∈ m.slots) →
      (ds.map declarationText).mapM readDeclaration = .ok ds := by
    intro ds hds
    apply mapM_map_eq_ok
    intro d hd
    exact readDeclaration_declarationText (hplain d (hds d hd))
  have hparameters := hslots m.parameters fun _ => List.mem_append_left _
  have hlocals := hslots m.variables fun _ => List.mem_append_right _
  have hmethod : (entryOf m points).method m.scriptHash documents =
      .ok { m with sequencePoints := sortPoints points } := by
    simp only [MethodEntry.method, entryOf, readRange?_rangeText hstart hstop, hread, hparameters,
      hlocals]
    rfl
  rw [hmethod, sortPoints_eq_iff.2 hpoints]

end DebugFile

namespace DebugInfo

theorem method_entryOf (m : Method) (documents : Nat) (hplain : ∀ d ∈ m.slots, d.Plain)
    (hfits : m.Fits) (hascending : m.sequencePoints.Pairwise fun a b => a.address ≤ b.address)
    (hdocuments : ∀ p ∈ m.sequencePoints, p.document < documents) :
    (entryOf m m.sequencePoints).method m.scriptHash documents = .ok m ∧
      (∀ points, SequencePoint.SortsTo points m.sequencePoints →
        (entryOf m points).method m.scriptHash documents = .ok m) ∧
      ((m.sequencePoints.map SequencePoint.address).Nodup →
        ∀ points, points.Perm m.sequencePoints →
          (entryOf m points).method m.scriptHash documents = .ok m) := by
  have hread : ∀ points, SequencePoint.SortsTo points m.sequencePoints →
      (entryOf m points).method m.scriptHash documents = .ok m :=
    fun points h => DebugFile.method_entryOf_of_sortsTo hplain hfits hdocuments h
  refine ⟨hread _ ⟨hascending, fun _ => rfl⟩, hread, ?_⟩
  intro hdistinct points hperm
  exact hread points (DebugFile.sortsTo_of_perm hperm hascending hdistinct)

/-- Two points at one address, listed behind the point that follows them, and a type with commas
behind an empty name. -/
theorem method_entryOf_shuffled :
    let first : SequencePoint := ⟨3, 1, ⟨1, 1⟩, ⟨1, 9⟩⟩
    let second : SequencePoint := ⟨3, 0, ⟨4294967295, 0⟩, ⟨2, 5⟩⟩
    let last : SequencePoint := ⟨18446744073709551615, 1, ⟨3, 1⟩, ⟨3, 2⟩⟩
    let m : Method := ⟨"m", "", "Main", 3, 18446744073709551615, [⟨"", "Map<A, B>,C"⟩],
      [⟨"two words", ""⟩], some "Object", [first, second, last], .zero⟩
    let points := [last, first, second]
    (∀ d ∈ m.slots, d.Plain) ∧ m.Fits ∧
      (m.sequencePoints.Pairwise fun a b => a.address ≤ b.address) ∧
      (∀ p ∈ m.sequencePoints, p.document < 2) ∧
      SequencePoint.SortsTo points m.sequencePoints ∧
      (entryOf m points).parameters = [",Map<A, B>,C"] ∧
      (entryOf m points).method .zero 2 = .ok m := by
  intro first second last m points
  have hplain : ∀ d ∈ m.slots, d.Plain := by
    intro d hd
    rcases List.mem_pair.1 hd with rfl | rfl
    · exact ⟨by decide, Text.trim_eq_iff.1 (by decide), Text.trim_eq_iff.1 (by decide)⟩
    · exact ⟨by decide, Text.trim_eq_iff.1 (by decide), Text.trim_eq_iff.1 (by decide)⟩
  have hfits : m.Fits := by
    unfold Method.Fits SequencePoint.Fits SourcePosition.Fits
    decide
  have hascending : m.sequencePoints.Pairwise fun a b => a.address ≤ b.address := by decide
  have hdocuments : ∀ p ∈ m.sequencePoints, p.document < 2 := by decide
  have hpoints : SequencePoint.SortsTo points m.sequencePoints := by
    refine ⟨hascending, ?_⟩
    intro address
    by_cases hlast : last.address = address
    · rw [← hlast]
      decide
    · simp [points, m, hlast, List.filter_cons]
  exact ⟨hplain, hfits, hascending, hdocuments, hpoints, by decide,
    (method_entryOf m 2 hplain hfits hascending hdocuments).2.1 points hpoints⟩

end DebugInfo
end ScriptScope

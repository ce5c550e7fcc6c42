import ScriptScope.Frame
import ScriptScope.Proofs.Text.Numerals

/-!
# ScriptScope.Proofs.Path.Grammar

The grammar of paths, apart from the reader that takes them.

`Spells` has one rule for each form of a path. Only a stack has a rule with a side condition: a text
that begins with the mark of the storage is never one, even where its indices could be read.

* `readIndices?_eq_some_iff`: the loop over the indices takes exactly the groups of the grammar.
* `readTrimmed_eq_ok_iff`: the reader takes exactly what the grammar spells.
* `parse_grammar`: so a text is read if and only if what is left of it without the blanks at its
  ends is spelled, and any other text is reported as it was given.
-/

namespace ScriptScope
namespace EvaluatePath

open Radix

/-- A name that a path can begin with. -/
structure IsHead (name : List Char) : Prop where
  ne_nil : name ≠ []
  no_dollar : name.head? ≠ some '$'
  plain : ∀ c ∈ name, Text.isBlank c = false ∧ c ≠ '[' ∧ c ≠ ']'

/-- One to eight hexadecimal digits and the word that they write. -/
structure IsHash (digits : List Char) (keyHash : UInt32) : Prop where
  ne_nil : 1 ≤ digits.length
  length_le : digits.length ≤ 8
  writes : hexadecimal.Writes digits keyHash.toNat

/-- A row of indices, each with digits between brackets. -/
inductive Groups : List Char → List Nat → Prop where
  | nil : Groups [] []
  | cons {digits rest : List Char} {i : Nat} {indices : List Nat} (hne : digits ≠ [])
    (hdigits : decimal.Writes digits i) (hlt : i < 2 ^ 64) (hrest : Groups rest indices) :
    Groups ('[' :: (digits ++ ']' :: rest)) (i :: indices)

inductive Spells : List Char → EvaluatePath → Prop where
  | storageEntry {digits : List Char} {keyHash : UInt32} (hhash : IsHash digits keyHash) :
    Spells ("$storage[".toList ++ (digits ++ [']'])) (.storageEntry keyHash)
  | storage {digits : List Char} {keyHash : UInt32} (hhash : IsHash digits keyHash)
    (half : StorageField) :
    Spells ("$storage[".toList ++ (digits ++ ']' :: '.' :: half.name.toList))
      (.storage keyHash half)
  | stack {name : String} {groups : List Char} {indices : List Nat} (hname : IsHead name.toList)
    (hgroups : Groups groups indices)
    (hmark : ¬"$storage[".toList <+: '$' :: (name.toList ++ groups)) :
    Spells ('$' :: (name.toList ++ groups)) (.stack name indices)
  | slot {name : String} {groups : List Char} {indices : List Nat} (hname : IsHead name.toList)
    (hgroups : Groups groups indices) :
    Spells (name.toList ++ groups) (.slot name indices)

theorem storageMark_eq : storageMark = "$storage[".toList := by
  decide

theorem isEvaluable_iff {name : List Char} : isEvaluable name = true ↔ IsHead name := by
  have hconditions : isEvaluable name = true ↔ name ≠ [] ∧ name.head? ≠ some '$' ∧
      ∀ c ∈ name, Text.isBlank c = false ∧ c ≠ '[' ∧ c ≠ ']' := by
    simp [isEvaluable, and_assoc]
  rw [hconditions]
  exact ⟨fun h => ⟨h.1, h.2.1, h.2.2⟩, fun h => ⟨h.ne_nil, h.no_dollar, h.plain⟩⟩

/-! ## Indices -/

theorem Groups.head? {groups : List Char} {indices : List Nat} (h : Groups groups indices) :
    ∀ c ∈ groups.head?, c = '[' := by
  cases h <;> simp

theorem readIndices?_cons {digits rest : List Char} (h : ']' ∉ digits) :
    readIndices? ('[' :: (digits ++ ']' :: rest)) =
      (Decimal.readDigits Decimal.limit64 digits).bind fun i =>
        (readIndices? rest).map (i :: ·) := by
  have hcut := Text.splitFirst_append h rest
  rw [readIndices?]
  split
  · next hnone =>
    rw [hcut] at hnone
    cases hnone
  · next index more hsome =>
    rw [hcut] at hsome
    cases hsome
    rfl

theorem readIndices?_eq_some_iff {cs : List Char} {indices : List Nat} :
    readIndices? cs = some indices ↔ Groups cs indices := by
  constructor
  · intro h
    fun_induction readIndices? cs generalizing indices with
    | case1 =>
      cases h
      exact .nil
    | case2 rest hcut => cases h
    | case3 rest digits more hcut ih =>
      obtain ⟨i, hi, hmap⟩ := Option.bind_eq_some_iff.1 h
      obtain ⟨tail, htail, rfl⟩ := Option.map_eq_some_iff.1 hmap
      obtain ⟨rfl, -⟩ := Text.splitFirst_eq_some_iff.1 hcut
      obtain ⟨hne, hwrites, hlt⟩ := Decimal.readDigits_eq_some_iff.1 hi
      exact .cons hne hwrites hlt (ih htail)
    | case4 => cases h
  · intro h
    induction h with
    | nil => rw [readIndices?]
    | cons hne hdigits hlt _ ih =>
      have hi : Decimal.readDigits Decimal.limit64 _ = some _ :=
        Decimal.readDigits_eq_some_iff.2 ⟨hne, hdigits, hlt⟩
      rw [readIndices?_cons (hdigits.not_mem (by decide)), hi, ih]
      rfl

theorem readIndexed_eq_ok_iff {body : List Char} {name : String} {indices : List Nat} :
    readIndexed body = .ok (name, indices) ↔
      ∃ groups, body = name.toList ++ groups ∧ IsHead name.toList ∧ Groups groups indices := by
  constructor
  · intro h
    simp only [readIndexed] at h
    split at h
    · next hname =>
      split at h
      · cases h
      · next found hread =>
        cases h
        rw [String.toList_ofList]
        exact ⟨_, List.takeWhile_append_dropWhile.symm, isEvaluable_iff.1 hname,
          readIndices?_eq_some_iff.1 hread⟩
    · cases h
  · rintro ⟨groups, rfl, hname, hgroups⟩
    obtain ⟨htake, hdrop⟩ :=
      Text.takeWhile_append_of_head (fun c hc => (hname.plain c hc).2.1) hgroups.head?
    simp only [readIndexed, htake, hdrop, isEvaluable_iff.2 hname, if_true,
      readIndices?_eq_some_iff.2 hgroups, String.ofList_toList]

/-! ## Storage -/

theorem IsHash.not_mem {digits : List Char} {keyHash : UInt32} (h : IsHash digits keyHash) :
    ']' ∉ digits :=
  h.writes.not_mem (by decide)

theorem readHash?_eq_some_iff {digits : List Char} {keyHash : UInt32} :
    readHash? digits = some keyHash ↔ IsHash digits keyHash := by
  unfold readHash?
  constructor
  · intro h
    split at h
    · next hlength =>
      obtain ⟨n, hn, rfl⟩ := Option.map_eq_some_iff.1 h
      have hwrites := Hex.value?_eq_some_iff.1 hn
      -- eight digits fit a word
      have hlt : n < 2 ^ 32 := by
        calc n < 16 ^ digits.length := hwrites.lt
          _ ≤ 16 ^ 8 := Nat.pow_le_pow_right (by decide) hlength.2
          _ = 2 ^ 32 := by decide
      refine ⟨hlength.1, hlength.2, ?_⟩
      rwa [UInt32.toNat_ofNat_of_lt' hlt]
    · cases h
  · rintro ⟨hne, hle, hwrites⟩
    rw [if_pos ⟨hne, hle⟩, Hex.value?_eq_some_iff.2 hwrites, Option.map_some, UInt32.ofNat_toNat]

theorem readStorage_append {digits half : List Char} {keyHash : UInt32}
    (h : IsHash digits keyHash) :
    readStorage (digits ++ ']' :: half) =
      if half = [] then .ok (.storageEntry keyHash)
      else if half = '.' :: StorageField.key.name.toList then .ok (.storage keyHash .key)
      else if half = '.' :: StorageField.value.name.toList then .ok (.storage keyHash .value)
      else .error .field := by
  simp only [readStorage, Text.splitFirst_append h.not_mem, readHash?_eq_some_iff.2 h]

theorem spells_of_readStorage {rest : List Char} {path : EvaluatePath}
    (h : readStorage rest = .ok path) : Spells ("$storage[".toList ++ rest) path := by
  have hread := h
  unfold readStorage at h
  split at h
  · cases h
  next digits half hcut =>
  split at h
  · cases h
  next keyHash hhash =>
  have hdigits := readHash?_eq_some_iff.1 hhash
  obtain ⟨rfl, -⟩ := Text.splitFirst_eq_some_iff.1 hcut
  split at h
  · next hhalf =>
    cases h
    rw [hhalf]
    exact .storageEntry hdigits
  split at h
  · next hhalf =>
    cases h
    rw [hhalf]
    exact .storage hdigits .key
  split at h
  · next hhalf =>
    cases h
    rw [hhalf]
    exact .storage hdigits .value
  · cases h

/-! ## Whole paths -/

theorem readTrimmed_storage (rest : List Char) :
    readTrimmed (storageMark ++ rest) = readStorage rest := by
  have h : storageMark.isPrefixOf? (storageMark ++ rest) = some rest := by
    rw [List.isPrefixOf?_eq_some_iff_append_eq]
  unfold readTrimmed
  rw [h]

theorem isPrefixOf?_eq_none {mark cs : List Char} (h : ¬mark <+: cs) :
    mark.isPrefixOf? cs = none := by
  cases hrest : mark.isPrefixOf? cs with
  | none => rfl
  | some rest => exact absurd ⟨rest, List.isPrefixOf?_eq_some_iff_append_eq.1 hrest⟩ h

theorem spells_of_readTrimmed {cs : List Char} {path : EvaluatePath}
    (h : readTrimmed cs = .ok path) : Spells cs path := by
  unfold readTrimmed at h
  split at h
  · next rest hmark =>
    obtain rfl := List.isPrefixOf?_eq_some_iff_append_eq.1 hmark
    rw [storageMark_eq]
    exact spells_of_readStorage h
  next hmark =>
  split at h
  · next body =>
    cases hread : readIndexed body with
    | error fault =>
      rw [hread] at h
      cases h
    | ok found =>
      rw [hread] at h
      cases h
      obtain ⟨groups, rfl, hname, hgroups⟩ := readIndexed_eq_ok_iff.1 hread
      refine .stack hname hgroups ?_
      rintro ⟨rest, hrest⟩
      rw [← storageMark_eq] at hrest
      rw [List.isPrefixOf?_eq_some_iff_append_eq.2 hrest] at hmark
      cases hmark
  · cases hread : readIndexed cs with
    | error fault =>
      rw [hread] at h
      cases h
    | ok found =>
      rw [hread] at h
      cases h
      obtain ⟨groups, rfl, hname, hgroups⟩ := readIndexed_eq_ok_iff.1 hread
      exact .slot hname hgroups

theorem readTrimmed_of_spells {cs : List Char} {path : EvaluatePath} (h : Spells cs path) :
    readTrimmed cs = .ok path := by
  cases h with
  | storageEntry hhash =>
    rw [← storageMark_eq, readTrimmed_storage, readStorage_append hhash, if_pos rfl]
  | storage hhash half =>
    rw [← storageMark_eq, readTrimmed_storage, readStorage_append hhash]
    cases half with
    | key => rfl
    | value => rfl
  | stack hname hgroups hmark =>
    rw [← storageMark_eq] at hmark
    unfold readTrimmed
    rw [isPrefixOf?_eq_none hmark]
    simp only [readIndexed_eq_ok_iff.2 ⟨_, rfl, hname, hgroups⟩, Except.map]
  | slot hname hgroups =>
    obtain ⟨c, rest, hcons⟩ := List.exists_cons_of_ne_nil hname.ne_nil
    have hc : c ≠ '$' := by
      rintro rfl
      exact hname.no_dollar (by rw [hcons]; rfl)
    have hread := readIndexed_eq_ok_iff.2 ⟨_, rfl, hname, hgroups⟩
    have hmark : ∀ cs, ¬storageMark <+: c :: cs := by
      rintro cs ⟨more, hmore⟩
      exact hc (List.cons.inj hmore).1.symm
    rw [hcons, List.cons_append] at hread ⊢
    unfold readTrimmed
    rw [isPrefixOf?_eq_none (hmark _)]
    simp only
    split
    · next heq => exact absurd (List.cons.inj heq).1 hc
    · rw [hread]
      rfl

theorem readTrimmed_eq_ok_iff {cs : List Char} {path : EvaluatePath} :
    readTrimmed cs = .ok path ↔ Spells cs path :=
  ⟨spells_of_readTrimmed, readTrimmed_of_spells⟩

theorem Groups.not_isBlank {groups : List Char} {indices : List Nat} (h : Groups groups indices) :
    ∀ c ∈ groups, Text.isBlank c = false := by
  induction h with
  | nil => simp
  | cons _ hdigits _ _ ih =>
    have hplain := hdigits.not_isBlank (by decide)
    simp only [List.mem_cons, List.mem_append]
    rintro c (rfl | hc | rfl | hc)
    · decide
    · exact hplain c hc
    · decide
    · exact ih c hc

theorem Spells.not_isBlank {cs : List Char} {path : EvaluatePath} (h : Spells cs path) :
    ∀ c ∈ cs, Text.isBlank c = false := by
  have hmark : ∀ c ∈ "$storage[".toList, Text.isBlank c = false := by simp [Text.isBlank]
  have hhash : ∀ {digits keyHash}, IsHash digits keyHash →
      ∀ c ∈ digits, Text.isBlank c = false := fun h => h.writes.not_isBlank (by decide)
  cases h with
  | storageEntry h =>
    simp only [List.mem_append, List.mem_singleton]
    rintro c (hc | hc | rfl)
    · exact hmark c hc
    · exact hhash h c hc
    · decide
  | storage h half =>
    have hname : ∀ c ∈ half.name.toList, Text.isBlank c = false := by
      cases half <;> simp [StorageField.name, Text.isBlank]
    simp only [List.mem_append, List.mem_cons]
    rintro c (hc | hc | rfl | rfl | hc)
    · exact hmark c hc
    · exact hhash h c hc
    · decide
    · decide
    · exact hname c hc
  | stack hname hgroups _ =>
    simp only [List.mem_cons, List.mem_append]
    rintro c (rfl | hc | hc)
    · decide
    · exact (hname.plain c hc).1
    · exact hgroups.not_isBlank c hc
  | slot hname hgroups =>
    intro c hc
    rcases List.mem_append.1 hc with hc | hc
    · exact (hname.plain c hc).1
    · exact hgroups.not_isBlank c hc

/-- A text that writes a path, with any blanks at its two ends. -/
def Writes (input : String) (path : EvaluatePath) : Prop :=
  ∃ inner, Text.Trims input.toList inner ∧ Spells inner path

theorem parse_eq_ok_iff {input : String} {path : EvaluatePath} :
    parse input = .ok path ↔ Writes input path := by
  rw [parse, readTrimmed_eq_ok_iff]
  constructor
  · intro h
    exact ⟨_, Text.trims_trim input.toList, h⟩
  · rintro ⟨inner, htrims, h⟩
    rwa [Text.trim_eq_iff.2 htrims]

theorem parse_grammar (input : String) :
    (∀ path, parse input = .ok path ↔ Writes input path) ∧
      ((¬∃ path, Writes input path) ↔ ∃ fault, parse input = .error fault ∧
        ∀ (frame : Frame) (context : Context) (memory : Memory) (presentation : Presentation),
          frame.evaluateText context memory presentation input =
            .error (.malformed input fault)) := by
  refine ⟨fun path => parse_eq_ok_iff, ?_, ?_⟩
  · intro hnone
    cases hread : parse input with
    | ok path => exact absurd ⟨path, parse_eq_ok_iff.1 hread⟩ hnone
    | error fault =>
      refine ⟨fault, rfl, ?_⟩
      intro frame context memory presentation
      rw [Frame.evaluateText, hread]
  · rintro ⟨fault, hfault, -⟩ ⟨path, hwrites⟩
    rw [parse_eq_ok_iff.2 hwrites] at hfault
    cases hfault

end EvaluatePath
end ScriptScope

import ScriptScope.Proofs.Path.Grammar

/-!
# ScriptScope.Proofs.Path.RoundTrip

Writing paths and reading them again. `EvaluatePath.Canonical` says which paths have a text that
means them: names must be able to head a path, indices must fit sixty-four bits, and a stack that
bears the name of the storage has no indices, since these would be read as a key.

* `parse_text`: the text of such a path is read back as that path.
* `canonical_of_parse`: a text that can be read gives such a path. So what is read, written, and
  read again is the same.
* `parse_image`: the readable paths are the canonical ones, and the texts that the variable tree
  gives to what is below a slot are among the readable texts.
-/

namespace ScriptScope
namespace EvaluatePath

def Canonical : EvaluatePath → Prop
  | .stack name indices =>
    isEvaluable name.toList = true ∧ (∀ i ∈ indices, i < Decimal.limit64) ∧
      (name = storageRoot → indices = [])
  | .slot name indices =>
    isEvaluable name.toList = true ∧ ∀ i ∈ indices, i < Decimal.limit64
  | .storageEntry _ | .storage _ _ => True

/-! ## Reading what is written -/

theorem isHash_word (keyHash : UInt32) : IsHash (Hex.word keyHash) keyHash where
  ne_nil := by
    rw [Hex.length_word]
    decide
  length_le := Nat.le_of_eq (Hex.length_word keyHash)
  writes := Hex.value?_eq_some_iff.1 (Hex.value?_word keyHash)

theorem groups_flatMap {indices : List Nat} (h : ∀ i ∈ indices, i < Decimal.limit64) :
    Groups (indices.flatMap indexChars) indices := by
  induction indices with
  | nil => exact .nil
  | cons i indices ih =>
    have hrest := ih fun j hj => h j (List.mem_cons_of_mem _ hj)
    have hgroups :=
      Groups.cons (Decimal.digits_ne_nil i) (Decimal.writes_digits i) (h i List.mem_cons_self) hrest
    rwa [List.flatMap_cons, indexChars, List.cons_append, List.cons_append, List.append_assoc]

theorem not_begins_with_storageMark {name groups : List Char} {indices : List Nat}
    (hname : IsHead name) (hgroups : Groups groups indices)
    (h : name = storageRoot.toList → indices = []) :
    ¬"$storage[".toList <+: '$' :: (name ++ groups) := by
  rintro ⟨more, hmore⟩
  have heq : storageRoot.toList ++ '[' :: more = name ++ groups := (List.cons.inj hmore).2
  have hroot : ∀ c ∈ storageRoot.toList, c ≠ '[' := by simp [storageRoot]
  have hbracket : ∀ c ∈ ('[' :: more).head?, c = '[' := by simp
  -- the two sides are cut at their first bracket, where they must agree
  obtain ⟨hsame, rfl⟩ := Text.append_inj_of_head hroot hbracket
    (fun c hc => (hname.plain c hc).2.1) hgroups.head? heq
  obtain rfl := h hsame.symm
  cases hgroups

theorem spells_chars {path : EvaluatePath} (h : path.Canonical) : Spells path.chars path := by
  cases path with
  | stack name indices =>
    obtain ⟨hname, hlt, hroot⟩ := h
    have hhead := isEvaluable_iff.1 hname
    have hgroups := groups_flatMap hlt
    refine .stack hhead hgroups (not_begins_with_storageMark hhead hgroups ?_)
    exact fun he => hroot (String.toList_inj.1 he)
  | slot name indices => exact .slot (isEvaluable_iff.1 h.1) (groups_flatMap h.2)
  | storageEntry keyHash =>
    have hspells := Spells.storageEntry (isHash_word keyHash)
    rwa [← storageMark_eq, ← List.append_assoc] at hspells
  | storage keyHash half =>
    have hspells := Spells.storage (isHash_word keyHash) half
    rw [← storageMark_eq] at hspells
    rwa [chars, storageChars, List.append_assoc, List.append_assoc, List.singleton_append]

theorem parse_text {path : EvaluatePath} (h : path.Canonical) : parse path.text = .ok path := by
  have hspells := spells_chars h
  rw [parse, text, String.toList_ofList, Text.trim_of_no_blank hspells.not_isBlank,
    readTrimmed_of_spells hspells]

/-! ## Writing what is read -/

theorem Groups.lt {groups : List Char} {indices : List Nat} (h : Groups groups indices) :
    ∀ i ∈ indices, i < Decimal.limit64 := by
  induction h with
  | nil => simp
  | cons _ _ hlt _ ih => simpa using ⟨hlt, ih⟩

theorem Spells.canonical {cs : List Char} {path : EvaluatePath} (h : Spells cs path) :
    path.Canonical := by
  cases h with
  | storageEntry hhash => trivial
  | storage hhash half => trivial
  | slot hname hgroups => exact ⟨isEvaluable_iff.2 hname, hgroups.lt⟩
  | stack hname hgroups hmark =>
    refine ⟨isEvaluable_iff.2 hname, hgroups.lt, ?_⟩
    rintro rfl
    cases hgroups with
    | nil => rfl
    | cons hne hdigits hlt hrest =>
      -- the text would begin with the mark of the storage
      exact absurd ⟨_, rfl⟩ hmark

theorem canonical_of_parse {input : String} {path : EvaluatePath} (h : parse input = .ok path) :
    path.Canonical := by
  obtain ⟨inner, -, hspells⟩ := parse_eq_ok_iff.1 h
  exact hspells.canonical

/-! ## The readable paths -/

/-- The text that the variable tree gives to what indices lead to from a slot. -/
def issued (name : String) (indices : List Nat) : String :=
  indices.foldl Container.elementPath name

theorem issued_eq_text (name : String) (indices : List Nat) :
    issued name indices = (EvaluatePath.slot name indices).text := by
  induction indices generalizing name with
  | nil => simp [issued, text, chars]
  | cons i indices ih =>
    have hstep : issued name (i :: indices) = issued (Container.elementPath name i) indices := rfl
    rw [hstep, ih]
    simp [text, chars, Container.elementPath]

theorem parse_image :
    (∀ path : EvaluatePath, (∃ input, parse input = .ok path) ↔ path.Canonical) ∧
      (∀ name : List Char, isEvaluable name = true ↔ name ≠ [] ∧ name.head? ≠ some '$' ∧
        ∀ c ∈ name, Text.isBlank c = false ∧ c ≠ '[' ∧ c ≠ ']') ∧
      (∀ path : EvaluatePath, path.Canonical → parse path.text = .ok path) ∧
      (∀ input path, parse input = .ok path → parse path.text = parse input) ∧
      ∀ name indices, isEvaluable name.toList = true → (∀ i ∈ indices, i < Decimal.limit64) →
        parse (issued name indices) = .ok (.slot name indices) := by
  refine ⟨?_, ?_, fun _ => parse_text, ?_, ?_⟩
  · intro path
    constructor
    · rintro ⟨input, h⟩
      exact canonical_of_parse h
    · exact fun h => ⟨path.text, parse_text h⟩
  · intro name
    rw [isEvaluable_iff]
    exact ⟨fun h => ⟨h.ne_nil, h.no_dollar, h.plain⟩, fun h => ⟨h.1, h.2.1, h.2.2⟩⟩
  · intro input path h
    rw [h, parse_text (canonical_of_parse h)]
  · intro name indices hname hlt
    rw [issued_eq_text]
    exact parse_text ⟨hname, hlt⟩

/-- A short hash in upper case, a stack under the name of the storage, and the text of an element
below a slot whose name holds a dollar sign. -/
theorem parse_image_generated :
    let storage : EvaluatePath := .storage 0xABC .key
    let stack : EvaluatePath := .stack "storage" []
    let deep := issued "CS$<>8__locals0" [3, 18446744073709551615]
    parse " $storage[0ABC].key" = .ok storage ∧ storage.text = "$storage[00000abc].key" ∧
      parse storage.text = parse " $storage[0ABC].key" ∧
      stack.Canonical ∧ stack.text = "$storage" ∧ parse stack.text = .ok stack ∧
      isEvaluable "CS$<>8__locals0".toList = true ∧
      (∀ i ∈ [3, 18446744073709551615], i < Decimal.limit64) ∧
      deep = "CS$<>8__locals0[3][18446744073709551615]" ∧
      parse deep = .ok (.slot "CS$<>8__locals0" [3, 18446744073709551615]) := by
  intro storage stack deep
  obtain ⟨-, -, hcanonical, hagain, hissued⟩ := parse_image
  have hparse : parse " $storage[0ABC].key" = .ok storage := by rfl
  have hstack : stack.Canonical := ⟨by decide +kernel, by simp, fun _ => rfl⟩
  have hname : isEvaluable "CS$<>8__locals0".toList = true := by decide +kernel
  have hindices : ∀ i ∈ [3, 18446744073709551615], i < Decimal.limit64 := by decide
  exact ⟨hparse, by decide +kernel, hagain _ _ hparse, hstack, by decide +kernel,
    hcanonical _ hstack, hname, hindices, by decide +kernel, hissued _ _ hname hindices⟩

end EvaluatePath
end ScriptScope

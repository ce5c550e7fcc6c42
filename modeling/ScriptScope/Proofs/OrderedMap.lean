import Mathlib.Data.List.Basic
import Mathlib.Data.List.Induction
import Mathlib.Data.List.Nodup
import ScriptScope.OrderedMap

/-!
# ScriptScope.Proofs.OrderedMap

Maps that arise from inserting pairs one after the other.

* `find?_ofList_eq_some_iff`: a key has the value of its last pair.
* `pairwise_keys_ofList`: the keys stand in the order of their first pairs.
* `insert_insert_comm`: two insertions may change places if the key of the later one is there
  already.
* `erase_ofList`: to erase a key is never to have inserted it.
* `collectBy_eq`: a map that looks for its keys by a hash and then by a test holds the same pairs,
  if the test is equality.
-/

namespace ScriptScope
namespace OrderedMap

variable {κ ν : Type}

theorem ext {m m' : OrderedMap κ ν} (h : m.entries = m'.entries) : m = m' := by
  cases m
  cases m'
  cases h
  rfl

/-- A key comes in front of every occurrence of another one. -/
def Precedes (keys : List κ) (a b : κ) : Prop :=
  ∃ before after, keys = before ++ a :: after ∧ b ∉ before ++ [a]

theorem Precedes.append {keys : List κ} {a b : κ} (h : Precedes keys a b) (more : List κ) :
    Precedes (keys ++ more) a b := by
  obtain ⟨before, after, rfl, hb⟩ := h
  exact ⟨before, after ++ more, by simp, hb⟩

theorem precedes_concat {keys : List κ} {a b : κ} (ha : a ∈ keys) (hb : b ∉ keys) :
    Precedes (keys ++ [b]) a b := by
  obtain ⟨before, after, rfl⟩ := List.append_of_mem ha
  refine ⟨before, after ++ [b], by simp, ?_⟩
  intro hmem
  apply hb
  simp only [List.mem_append, List.mem_singleton] at hmem
  rcases hmem with hmem | rfl
  · exact List.mem_append_left _ hmem
  · exact List.mem_append_right _ List.mem_cons_self

/-- Of two places in one list, the earlier one lies in the front that ends with the later one. -/
theorem mem_concat_of_append_eq {before after before' after' : List κ} {a b : κ}
    (h : before ++ a :: after = before' ++ b :: after') :
    a ∈ before' ++ [b] ∨ b ∈ before ++ [a] := by
  rcases List.append_eq_append_iff.1 h with ⟨between, rfl, htail⟩ | ⟨between, rfl, htail⟩
  · left
    cases between with
    | nil => simp [(List.cons.inj htail).1]
    | cons first rest => simp [(List.cons.inj htail).1]
  · right
    cases between with
    | nil => simp [(List.cons.inj htail).1]
    | cons first rest => simp [(List.cons.inj htail).1]

theorem Precedes.asymm {keys : List κ} {a b : κ} (h : Precedes keys a b) : ¬Precedes keys b a := by
  rintro ⟨before', after', hsplit', ha⟩
  obtain ⟨before, after, hsplit, hb⟩ := h
  rcases mem_concat_of_append_eq (hsplit.symm.trans hsplit') with hmem | hmem
  · exact ha hmem
  · exact hb hmem

variable [DecidableEq κ]

/-- With distinct keys, a pair is what its key is mapped to. -/
theorem mem_entries_iff {m : OrderedMap κ ν} {key : κ} {value : ν} :
    (key, value) ∈ m.entries ↔ m.find? key = some value := by
  rw [find?, Option.map_eq_some_iff]
  constructor
  · intro hmem
    cases hfind : m.entries.find? fun entry => entry.1 = key with
    | none =>
      have hne := List.find?_eq_none.1 hfind _ hmem
      simp at hne
    | some entry =>
      have hkey : entry.1 = key := by simpa using List.find?_some hfind
      have hentry := List.inj_on_of_nodup_map m.nodup (List.mem_of_find?_eq_some hfind) hmem hkey
      exact ⟨entry, rfl, congrArg Prod.snd hentry⟩
  · rintro ⟨entry, hfind, rfl⟩
    have hkey : entry.1 = key := by simpa using List.find?_some hfind
    subst hkey
    exact List.mem_of_find?_eq_some hfind

theorem ofList_concat (pairs : List (κ × ν)) (pair : κ × ν) :
    ofList (pairs ++ [pair]) = (ofList pairs).insert pair.1 pair.2 := by
  rw [ofList, List.foldl_append]
  rfl

theorem find?_ofList (pairs : List (κ × ν)) (key : κ) :
    (ofList pairs).find? key = (pairs.reverse.find? fun pair => pair.1 = key).map Prod.snd := by
  induction pairs using List.reverseRecOn with
  | nil => rfl
  | append_singleton pairs pair ih =>
    rw [ofList_concat, find?_insert, ih, List.reverse_append, List.reverse_singleton,
      List.singleton_append, List.find?_cons]
    by_cases h : pair.1 = key
    · simp [h]
    · simp [h, Ne.symm h]

theorem find?_ofList_eq_some_iff {pairs : List (κ × ν)} {key : κ} {value : ν} :
    (ofList pairs).find? key = some value ↔
      ∃ before after, pairs = before ++ (key, value) :: after ∧ ∀ pair ∈ after, pair.1 ≠ key := by
  rw [find?_ofList, Option.map_eq_some_iff]
  constructor
  · rintro ⟨pair, hfind, rfl⟩
    obtain ⟨hkey, after, before, hsplit, hnone⟩ := List.find?_eq_some_iff_append.1 hfind
    obtain rfl : pair.1 = key := by simpa using hkey
    refine ⟨before.reverse, after.reverse, ?_, ?_⟩
    · simpa using congrArg List.reverse hsplit
    · simpa using hnone
  · rintro ⟨before, after, rfl, hnone⟩
    refine ⟨(key, value), List.find?_eq_some_iff_append.2 ⟨by simp, ?_⟩, rfl⟩
    exact ⟨after.reverse, before.reverse, by simp, by simpa using hnone⟩

theorem mem_keys_ofList_iff {pairs : List (κ × ν)} {key : κ} :
    key ∈ (ofList pairs).keys ↔ key ∈ pairs.map Prod.fst := by
  induction pairs using List.reverseRecOn with
  | nil => rfl
  | append_singleton pairs pair ih =>
    rw [ofList_concat, keys_insert, List.map_append, List.mem_append, ← ih]
    split
    · next hmem =>
      constructor
      · exact .inl
      · rintro (h | h)
        · exact h
        · rwa [List.mem_singleton.1 h]
    · rw [List.mem_append, List.map_singleton]

theorem pairwise_keys_ofList (pairs : List (κ × ν)) :
    (ofList pairs).keys.Pairwise (Precedes (pairs.map Prod.fst)) := by
  induction pairs using List.reverseRecOn with
  | nil => exact .nil
  | append_singleton pairs pair ih =>
    -- the keys that were there keep their places
    have hkept := ih.imp fun h => h.append [pair.1]
    rw [ofList_concat, keys_insert, List.map_append, List.map_singleton]
    split
    · exact hkept
    · next hnew =>
      refine List.pairwise_append.2 ⟨hkept, List.pairwise_singleton .., ?_⟩
      intro key hkey last hlast
      obtain rfl := List.mem_singleton.1 hlast
      exact precedes_concat (mem_keys_ofList_iff.1 hkey) (mt mem_keys_ofList_iff.2 hnew)

theorem put_put_comm {first second : κ} (hne : second ≠ first) (v w : ν) {entries : List (κ × ν)}
    (hmem : second ∈ entries.map Prod.fst) :
    put second w (put first v entries) = put first v (put second w entries) := by
  induction entries with
  | nil => cases hmem
  | cons entry rest ih =>
    by_cases hfirst : entry.1 = first
    · have hsecond : entry.1 ≠ second := fun h => hne (h.symm.trans hfirst)
      simp [put, hfirst, hne.symm]
    · by_cases hsecond : entry.1 = second
      · simp [put, hsecond, hne]
      · have hrest : second ∈ rest.map Prod.fst := by
          simpa [Ne.symm hsecond] using hmem
        simp only [put, if_neg hfirst, if_neg hsecond, ih hrest]

theorem insert_insert_comm {m : OrderedMap κ ν} {first second : κ} (hne : second ≠ first)
    (hmem : second ∈ m.keys) (v w : ν) :
    (m.insert first v).insert second w = (m.insert second w).insert first v :=
  ext (put_put_comm hne v w hmem)

/-! ## Erasing -/

theorem filter_put (key other : κ) (value : ν) (entries : List (κ × ν)) :
    (put key value entries).filter (fun entry => entry.1 ≠ other) =
      if key = other then entries.filter fun entry => entry.1 ≠ other
      else put key value (entries.filter fun entry => entry.1 ≠ other) := by
  induction entries with
  | nil =>
    by_cases h : key = other
    · simp [put, h]
    · simp [put, h]
  | cons entry rest ih =>
    by_cases hkey : entry.1 = key
    · by_cases h : key = other
      · simp [put, hkey, h]
      · simp [put, hkey, h]
    · by_cases hother : entry.1 = other
      · have hne : key ≠ other := fun h => hkey (hother.trans h.symm)
        simpa [put, hother, hne, hne.symm] using ih
      · by_cases h : key = other
        · simpa [put, hkey, hother, h] using ih
        · simpa [put, hkey, hother, h] using ih

theorem erase_insert (m : OrderedMap κ ν) (key other : κ) (value : ν) :
    (m.insert key value).erase other =
      if key = other then m.erase other else (m.erase other).insert key value := by
  apply ext
  refine (filter_put key other value m.entries).trans ?_
  split <;> rfl

theorem erase_ofList (pairs : List (κ × ν)) (key : κ) :
    (ofList pairs).erase key = ofList (pairs.filter fun pair => pair.1 ≠ key) := by
  induction pairs using List.reverseRecOn with
  | nil => rfl
  | append_singleton pairs pair ih =>
    rw [ofList_concat, erase_insert, ih, List.filter_append]
    by_cases h : pair.1 = key
    · simp [h]
    · simp [h, ofList_concat]

/-! ## Looking for keys by a hash -/

section

variable (hash : κ → UInt64) (same : κ → κ → Bool)

/-- The pairs with the value of a key replaced, or the key added at the end. A key is looked for by
its hash and then by a test; one that is there stays as it is. -/
def putBy (key : κ) (value : ν) : List (κ × ν) → List (κ × ν)
  | [] => [(key, value)]
  | entry :: rest =>
    if hash entry.1 = hash key ∧ same key entry.1 = true then (entry.1, value) :: rest
    else entry :: putBy key value rest

/-- The pairs that are held when some have been put one after the other. -/
def collectBy (pairs : List (κ × ν)) : List (κ × ν) :=
  pairs.foldl (fun entries pair => putBy hash same pair.1 pair.2 entries) []

variable {same}

theorem putBy_eq (h : ∀ a b, same a b = true ↔ a = b) (key : κ) (value : ν)
    (entries : List (κ × ν)) : putBy hash same key value entries = put key value entries := by
  induction entries with
  | nil => rfl
  | cons entry rest ih =>
    by_cases hkey : entry.1 = key
    · have hfound : hash entry.1 = hash key ∧ same key entry.1 = true :=
        ⟨congrArg hash hkey, (h key entry.1).2 hkey.symm⟩
      rw [putBy, put, if_pos hfound, if_pos hkey, hkey]
    · have hother : ¬(hash entry.1 = hash key ∧ same key entry.1 = true) :=
        fun hfound => hkey ((h key entry.1).1 hfound.2).symm
      rw [putBy, put, if_neg hother, if_neg hkey, ih]

theorem collectBy_eq (h : ∀ a b, same a b = true ↔ a = b) (pairs : List (κ × ν)) :
    collectBy hash same pairs = (ofList pairs).entries := by
  induction pairs using List.reverseRecOn with
  | nil => rfl
  | append_singleton pairs pair ih =>
    rw [collectBy, List.foldl_append, ← collectBy, ih, ofList_concat]
    exact putBy_eq hash h ..

end

end OrderedMap
end ScriptScope

/-!
# ScriptScope.OrderedMap

Maps that keep the order in which their keys first came. A key that comes again keeps its place and
takes the new value.

* `keys_insert`: a new key goes to the end, a known one changes no place.
* `find?_insert`, `find?_erase`: only the inserted or erased key changes its value.
-/

namespace ScriptScope

/-- Pairs with distinct keys, in order. -/
structure OrderedMap (κ ν : Type) where
  entries : List (κ × ν)
  nodup : (entries.map Prod.fst).Nodup

namespace OrderedMap

variable {κ ν : Type} [DecidableEq κ]

/-- The pairs with the value of a key replaced, or the key added at the end. -/
def put (key : κ) (value : ν) : List (κ × ν) → List (κ × ν)
  | [] => [(key, value)]
  | entry :: rest =>
    if entry.1 = key then (key, value) :: rest else entry :: put key value rest

theorem keys_put (key : κ) (value : ν) (entries : List (κ × ν)) :
    (put key value entries).map Prod.fst =
      if key ∈ entries.map Prod.fst then entries.map Prod.fst
      else entries.map Prod.fst ++ [key] := by
  induction entries with
  | nil => simp [put]
  | cons entry rest ih =>
    by_cases h : entry.1 = key
    · simp [put, h]
    · simp only [put, h, if_false, List.map_cons, ih, List.mem_cons, Ne.symm h, false_or]
      split <;> simp

def empty : OrderedMap κ ν := ⟨[], by simp⟩

instance : Inhabited (OrderedMap κ ν) := ⟨empty⟩

/-- Gives a key a value. -/
def insert (m : OrderedMap κ ν) (key : κ) (value : ν) : OrderedMap κ ν where
  entries := put key value m.entries
  nodup := by
    rw [keys_put]
    split
    · exact m.nodup
    · next h =>
      refine List.nodup_append.2 ⟨m.nodup, by simp, ?_⟩
      intro a ha b hb e
      exact h (by simpa [← List.mem_singleton.1 hb, ← e] using ha)

def find? (m : OrderedMap κ ν) (key : κ) : Option ν :=
  (m.entries.find? fun entry => entry.1 = key).map Prod.snd

/-- The map without a key. -/
def erase (m : OrderedMap κ ν) (key : κ) : OrderedMap κ ν where
  entries := m.entries.filter fun entry => entry.1 ≠ key
  nodup := by
    have : (m.entries.filter fun entry => entry.1 ≠ key).map Prod.fst =
        (m.entries.map Prod.fst).filter (· ≠ key) := by
      simp [List.filter_map, Function.comp_def]
    rw [this]
    exact List.Pairwise.filter _ m.nodup

/-- The map that arises from inserting pairs one after the other. -/
def ofList (pairs : List (κ × ν)) : OrderedMap κ ν :=
  pairs.foldl (fun m pair => m.insert pair.1 pair.2) empty

def keys (m : OrderedMap κ ν) : List κ :=
  m.entries.map Prod.fst

def size (m : OrderedMap κ ν) : Nat :=
  m.entries.length

theorem keys_insert (m : OrderedMap κ ν) (key : κ) (value : ν) :
    (m.insert key value).keys = if key ∈ m.keys then m.keys else m.keys ++ [key] :=
  keys_put key value m.entries

theorem find?_put (key other : κ) (value : ν) (entries : List (κ × ν)) :
    ((put key value entries).find? fun entry => entry.1 = other).map Prod.snd =
      if other = key then some value
      else (entries.find? fun entry => entry.1 = other).map Prod.snd := by
  induction entries with
  | nil =>
    by_cases h : other = key
    · simp [put, h]
    · simp [put, h, Ne.symm h]
  | cons entry rest ih =>
    by_cases h : entry.1 = key
    · by_cases ho : other = key
      · simp [put, h, ho]
      · simp [put, h, ho, Ne.symm ho]
    · by_cases he : entry.1 = other
      · have ho : other ≠ key := fun e => h (he.trans e)
        simp [put, he, ho]
      · simpa [put, h, he] using ih

theorem find?_insert (m : OrderedMap κ ν) (key other : κ) (value : ν) :
    (m.insert key value).find? other = if other = key then some value else m.find? other :=
  find?_put key other value m.entries

theorem find?_erase (m : OrderedMap κ ν) (key other : κ) :
    (m.erase key).find? other = if other = key then none else m.find? other := by
  rw [find?, erase, List.find?_filter]
  split
  · next h =>
    subst h
    simp
  · next h =>
    rw [find?]
    congr 2
    funext entry
    by_cases he : entry.1 = other <;> simp [he, h]

theorem find?_eq_none_iff {m : OrderedMap κ ν} {key : κ} :
    m.find? key = none ↔ key ∉ m.keys := by
  rw [find?, Option.map_eq_none_iff, List.find?_eq_none, keys, List.mem_map]
  constructor
  · rintro h ⟨entry, hmem, rfl⟩
    exact h entry hmem (by simp)
  · intro h entry hmem he
    exact h ⟨entry, hmem, by simpa using he⟩

theorem size_insert {m : OrderedMap κ ν} {key : κ} (h : m.find? key = none) (value : ν) :
    (m.insert key value).size = m.size + 1 := by
  have hkeys := keys_insert m key value
  rw [if_neg (find?_eq_none_iff.1 h)] at hkeys
  simpa [keys, size] using congrArg List.length hkeys

end OrderedMap
end ScriptScope

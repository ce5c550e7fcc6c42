import Mathlib.Data.List.DropRight
import Mathlib.Logic.Relation
import ScriptScope.Proofs.OrderedMap
import ScriptScope.Storage

/-!
# ScriptScope.Proofs.Storage.Writes

What a store shows after any number of writes. Of all that was done to it only the entries put
under a contract since it was last cleared count for that contract (`live`).

* `contract_apply_congr`: a write looks at nothing but what the contracts hold.
* `contract_ofWrites`: so a contract holds the map that arises from its live entries, in order.
* `entries_ofWrites`: each key once, with the content of its last entry and at the place of its
  first one. Writes under other contracts make no difference, and puts that meet neither in their
  contract nor in a new key may change places.
-/

namespace ScriptScope
namespace Storage

/-- What may be done to a store. -/
inductive Write where
  | put (contract : ScriptHash) (entry : StorageEntry)
  | clear (contract : ScriptHash)
deriving DecidableEq, Repr

/-- The contract whose storage is written. -/
def Write.contract : Write → ScriptHash
  | .put contract _ => contract
  | .clear contract => contract

/-- The entry that is put under a contract. -/
def Write.entryUnder (hash : ScriptHash) : Write → Option StorageEntry
  | .put contract entry => if contract = hash then some entry else none
  | .clear _ => none

def apply (s : Storage) : Write → Storage
  | .put contract entry => s.put contract entry
  | .clear contract => s.clear contract

/-- The store after some writes, which was empty before. -/
def ofWrites (writes : List Write) : Storage :=
  writes.foldl apply empty

/-- The entries put under a contract since it was last cleared, in order. -/
def live (hash : ScriptHash) (writes : List Write) : List StorageEntry :=
  (writes.rtakeWhile (· ≠ .clear hash)).filterMap (Write.entryUnder hash)

/-- What is shown of entries that were put one after the other. -/
structure Shows (puts entries : List StorageEntry) : Prop where
  nodup : (entries.map StorageEntry.key).Nodup
  mem_key_iff : ∀ key, key ∈ entries.map StorageEntry.key ↔ key ∈ puts.map StorageEntry.key
  /-- Each entry is the last one that was put under its key. -/
  latest : ∀ entry ∈ entries, ∃ before after, puts = before ++ entry :: after ∧
    ∀ other ∈ after, other.key ≠ entry.key
  /-- The keys stand in the order in which they were first put. -/
  ordered : (entries.map StorageEntry.key).Pairwise
    (OrderedMap.Precedes (puts.map StorageEntry.key))

/-- Two lists of writes differ in the order of two neighbours: puts under different contracts, or
puts of different keys under one contract that holds the key of the second already. -/
inductive Exchange : List Write → List Write → Prop where
  | contracts {first second : ScriptHash} (hne : first ≠ second) (front back : List Write)
      (a b : StorageEntry) :
      Exchange (front ++ .put first a :: .put second b :: back)
        (front ++ .put second b :: .put first a :: back)
  | keys {a b : StorageEntry} (hne : b.key ≠ a.key) {front : List Write} {contract : ScriptHash}
      (hheld : b.key ∈ ((ofWrites front).entries contract).map StorageEntry.key)
      (back : List Write) :
      Exchange (front ++ .put contract a :: .put contract b :: back)
        (front ++ .put contract b :: .put contract a :: back)

/-! ## One write -/

/-- A key with what is stored under it. -/
def pairOf (entry : StorageEntry) : Bytes × StoredValue :=
  (entry.key, ⟨entry.value, entry.isConstant⟩)

theorem contract_put_self (s : Storage) (hash : ScriptHash) (entry : StorageEntry) :
    (s.put hash entry).contract hash =
      (s.contract hash).insert (pairOf entry).1 (pairOf entry).2 := by
  rw [contract_put, if_pos rfl]
  rfl

theorem contract_put_of_ne {hash other : ScriptHash} (h : other ≠ hash) (s : Storage)
    (entry : StorageEntry) : (s.put hash entry).contract other = s.contract other := by
  rw [contract_put, if_neg h]

theorem contract_apply_congr {s t : Storage} (h : ∀ hash, s.contract hash = t.contract hash)
    (write : Write) (hash : ScriptHash) :
    (s.apply write).contract hash = (t.apply write).contract hash := by
  cases write with
  | put contract entry => simp only [apply, contract_put, h]
  | clear contract => simp only [apply, contract_clear, h]

theorem contract_foldl_congr {s t : Storage} (h : ∀ hash, s.contract hash = t.contract hash)
    (writes : List Write) (hash : ScriptHash) :
    (writes.foldl apply s).contract hash = (writes.foldl apply t).contract hash := by
  induction writes generalizing s t with
  | nil => exact h hash
  | cons write writes ih => exact ih (contract_apply_congr h write)

/-! ## All writes -/

theorem ofWrites_concat (writes : List Write) (write : Write) :
    ofWrites (writes ++ [write]) = (ofWrites writes).apply write := by
  rw [ofWrites, List.foldl_append]
  rfl

theorem live_clear (hash : ScriptHash) (writes : List Write) :
    live hash (writes ++ [.clear hash]) = [] := by
  rw [live, List.rtakeWhile_concat_neg _ _ _ (by simp)]
  rfl

theorem live_concat {hash : ScriptHash} {write : Write} (h : write ≠ .clear hash)
    (writes : List Write) :
    live hash (writes ++ [write]) = live hash writes ++ (write.entryUnder hash).toList := by
  rw [live, List.rtakeWhile_concat_pos _ _ _ (by simpa using h), List.filterMap_append, live]
  cases hentry : write.entryUnder hash <;> simp [hentry]

theorem entryUnder_of_contract_ne {hash : ScriptHash} {write : Write} (h : write.contract ≠ hash) :
    write.entryUnder hash = none := by
  cases write with
  | put contract entry => exact if_neg h
  | clear contract => rfl

theorem live_concat_of_contract_ne {hash : ScriptHash} {write : Write} (h : write.contract ≠ hash)
    (writes : List Write) : live hash (writes ++ [write]) = live hash writes := by
  have hclear : write ≠ .clear hash := by
    rintro rfl
    exact h rfl
  rw [live_concat hclear, entryUnder_of_contract_ne h, Option.toList_none, List.append_nil]

theorem contract_apply_of_contract_ne {hash : ScriptHash} {write : Write}
    (h : write.contract ≠ hash) (s : Storage) :
    (s.apply write).contract hash = s.contract hash := by
  cases write with
  | put contract entry => exact contract_put_of_ne (Ne.symm h) s entry
  | clear contract =>
    rw [apply, contract_clear]
    exact if_neg (Ne.symm h)

theorem contract_ofWrites (writes : List Write) (hash : ScriptHash) :
    (ofWrites writes).contract hash = .ofList ((live hash writes).map pairOf) := by
  induction writes using List.reverseRecOn with
  | nil => rfl
  | append_singleton writes write ih =>
    rw [ofWrites_concat]
    by_cases hcontract : write.contract = hash
    · subst hcontract
      cases write with
      | put contract entry =>
        have hlive : live contract (writes ++ [.put contract entry]) =
            live contract writes ++ [entry] := by
          rw [live_concat (by simp), Write.entryUnder, if_pos rfl]
          rfl
        simp only [Write.contract] at ih ⊢
        rw [hlive, List.map_append, List.map_singleton, OrderedMap.ofList_concat, ← ih]
        exact contract_put_self ..
      | clear contract =>
        rw [Write.contract, live_clear, apply, contract_clear]
        exact if_pos rfl
    · rw [contract_apply_of_contract_ne hcontract, live_concat_of_contract_ne hcontract, ih]

theorem live_filter (hash : ScriptHash) (writes : List Write) :
    live hash (writes.filter (·.contract = hash)) = live hash writes := by
  induction writes using List.reverseRecOn with
  | nil => rfl
  | append_singleton writes write ih =>
    rw [List.filter_append]
    by_cases hcontract : write.contract = hash
    · have hkept : [write].filter (·.contract = hash) = [write] := by simp [hcontract]
      rw [hkept]
      by_cases hclear : write = .clear hash
      · rw [hclear, live_clear, live_clear]
      · rw [live_concat hclear, live_concat hclear, ih]
    · have hdropped : [write].filter (·.contract = hash) = [] := by simp [hcontract]
      rw [hdropped, List.append_nil, live_concat_of_contract_ne hcontract, ih]

/-! ## Entries -/

theorem mem_entries_iff {s : Storage} {hash : ScriptHash} {entry : StorageEntry} :
    entry ∈ s.entries hash ↔ pairOf entry ∈ (s.contract hash).entries := by
  rw [entries, List.mem_map]
  constructor
  · rintro ⟨pair, hmem, rfl⟩
    exact hmem
  · intro hmem
    exact ⟨_, hmem, rfl⟩

theorem map_key_entries (s : Storage) (hash : ScriptHash) :
    (s.entries hash).map StorageEntry.key = (s.contract hash).keys := by
  rw [entries, List.map_map]
  rfl

theorem map_fst_pairOf (entries : List StorageEntry) :
    (entries.map pairOf).map Prod.fst = entries.map StorageEntry.key := by
  rw [List.map_map]
  rfl

theorem shows_entries (writes : List Write) (hash : ScriptHash) :
    Shows (live hash writes) ((ofWrites writes).entries hash) where
  nodup := by
    rw [map_key_entries]
    exact ((ofWrites writes).contract hash).nodup
  mem_key_iff key := by
    rw [map_key_entries, contract_ofWrites, OrderedMap.mem_keys_ofList_iff, map_fst_pairOf]
  latest entry hmem := by
    rw [mem_entries_iff, contract_ofWrites] at hmem
    obtain ⟨before, after, hsplit, hlast⟩ :=
      OrderedMap.find?_ofList_eq_some_iff.1 (OrderedMap.mem_entries_iff.1 hmem)
    obtain ⟨front, rest, hlive, rfl, hrest⟩ := List.map_eq_append_iff.1 hsplit
    obtain ⟨found, back, rfl, hfound, rfl⟩ := List.map_eq_cons_iff.1 hrest
    obtain rfl : found = entry := by
      cases found
      cases entry
      cases hfound
      rfl
    exact ⟨front, back, hlive, by simpa [pairOf] using hlast⟩
  ordered := by
    have hkeys := OrderedMap.pairwise_keys_ofList ((live hash writes).map pairOf)
    rwa [map_fst_pairOf, ← contract_ofWrites, ← map_key_entries] at hkeys

theorem entries_eq_of_contract {s t : Storage} (h : ∀ hash, s.contract hash = t.contract hash) :
    s.entries = t.entries := by
  funext hash
  rw [entries, entries, h]

theorem entries_ofWrites_exchange {writes others : List Write} (h : Exchange writes others) :
    (ofWrites others).entries = (ofWrites writes).entries := by
  apply entries_eq_of_contract
  cases h with
  | contracts hne front back a b =>
    simp only [ofWrites, List.foldl_append, List.foldl_cons]
    refine contract_foldl_congr (fun hash => ?_) back
    simp only [apply, contract_put]
    grind
  | @keys a b hne front contract hheld back =>
    simp only [ofWrites, List.foldl_append, List.foldl_cons]
    refine contract_foldl_congr (fun hash => ?_) back
    rw [map_key_entries, ofWrites] at hheld
    by_cases hhash : hash = contract
    · subst hhash
      simp only [apply, contract_put_self]
      exact (OrderedMap.insert_insert_comm hne hheld _ _).symm
    · simp only [apply, contract_put_of_ne hhash]

theorem entries_ofWrites :
    (∀ writes hash, Shows (live hash writes) ((ofWrites writes).entries hash)) ∧
    (∀ writes hash, (ofWrites (writes.filter (·.contract = hash))).entries hash =
      (ofWrites writes).entries hash) ∧
    ∀ writes others, Relation.EqvGen Exchange writes others →
      (ofWrites others).entries = (ofWrites writes).entries := by
  refine ⟨shows_entries, ?_, ?_⟩
  · intro writes hash
    rw [entries, entries, contract_ofWrites, contract_ofWrites, live_filter]
  · intro writes others h
    induction h with
    | rel writes others h => exact entries_ofWrites_exchange h
    | refl => rfl
    | symm _ _ _ ih => exact ih.symm
    | trans _ _ _ _ _ ih ih' => exact ih'.trans ih

/-- A contract that is cleared and written again, with its last two puts in either order. -/
theorem entries_ofWrites_overwritten :
    let other : ScriptHash := ⟨List.replicate 20 1, rfl⟩
    let front : List Write := [.put .zero ⟨[1], [10], false⟩, .put other ⟨[1], [20], false⟩,
      .clear .zero, .put .zero ⟨[2], [11], false⟩]
    let one : Write := .put .zero ⟨[1], [12], true⟩
    let two : Write := .put .zero ⟨[2], [13], false⟩
    let shown : List StorageEntry := [⟨[2], [13], false⟩, ⟨[1], [12], true⟩]
    Relation.EqvGen Exchange (front ++ [one, two]) (front ++ [two, one]) ∧
      (ofWrites (front ++ [one, two])).entries .zero = shown ∧
      (ofWrites (front ++ [two, one])).entries .zero = shown ∧
      Shows [⟨[2], [11], false⟩, ⟨[1], [12], true⟩, ⟨[2], [13], false⟩] shown ∧
      (ofWrites ([one, two])).entries .zero ≠ shown := by
  intro other front one two shown
  obtain ⟨hshows, -, hexchange⟩ := entries_ofWrites
  have hswap : Relation.EqvGen Exchange (front ++ [one, two]) (front ++ [two, one]) :=
    .rel _ _ (.keys (by decide) (by decide) [])
  have hshown : (ofWrites (front ++ [one, two])).entries .zero = shown := by decide
  have hlive := hshows (front ++ [one, two]) .zero
  rw [hshown] at hlive
  exact ⟨hswap, hshown, (congrFun (hexchange _ _ hswap) .zero).trans hshown, hlive, by decide⟩

end Storage
end ScriptScope

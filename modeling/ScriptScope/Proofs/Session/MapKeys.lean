import ScriptScope.Proofs.Item.Equality
import ScriptScope.Proofs.Session.ReadThrough

/-!
# ScriptScope.Proofs.Session.MapKeys

The keys of a map while the machine goes on.

A map is made from pairs, more of them come and some go, and all the while the composites among its
keys change. Since an item is compared by its value or its place, none of this makes two keys equal
or a key other than itself.

* `lists_iff`: a map has one entry for each class of equal keys, with the value of the last pair of
  the class, in the order of the first ones; there is one such list.
* `mapAt_run`: after any run it is the map of the pairs that were inserted and not erased since.
* `alike_run`: whether two items are one key does not change.
* `distinctKeys_run`: so an expansion of the map shows entries with different keys, in that order.
-/

namespace ScriptScope

/-! ## What a map lists -/

namespace Item

/-- A key equal to `a` comes in front of every key equal to `b`. -/
def Heads (keys : List Item) (a b : Item) : Prop :=
  ∃ before key after, keys = before ++ key :: after ∧ key.same a = true ∧
    ∀ other ∈ before ++ [key], other.same b = false

/-- What is listed of pairs that were inserted one after the other. -/
structure Lists (pairs entries : List (Item × Item)) : Prop where
  distinct : (entries.map Prod.fst).Pairwise fun a b => a.same b = false
  classes : ∀ key, (∃ entry ∈ entries, entry.1.same key = true) ↔
    ∃ pair ∈ pairs, pair.1.same key = true
  /-- Each entry has the value of the last pair of its class. -/
  latest : ∀ entry ∈ entries, ∃ before pair after, pairs = before ++ pair :: after ∧
    pair.1.same entry.1 = true ∧ pair.2 = entry.2 ∧
      ∀ other ∈ after, other.1.same entry.1 = false
  /-- The classes stand in the order in which they first came. -/
  ordered : (entries.map Prod.fst).Pairwise (Heads (pairs.map Prod.fst))

theorem same_eq_false_iff {a b : Item} : a.same b = false ↔ a ≠ b := by
  rw [← Bool.not_eq_true, same_iff_eq]

theorem heads_iff_precedes {keys : List Item} {a b : Item} :
    Heads keys a b ↔ OrderedMap.Precedes keys a b := by
  constructor
  · rintro ⟨before, key, after, hsplit, hkey, hnot⟩
    obtain rfl := same_iff_eq.1 hkey
    exact ⟨before, after, hsplit, fun hmem => same_eq_false_iff.1 (hnot b hmem) rfl⟩
  · rintro ⟨before, after, hsplit, hnot⟩
    refine ⟨before, a, after, hsplit, same_iff_eq.2 rfl, fun other hmem => ?_⟩
    rw [same_eq_false_iff]
    rintro rfl
    exact hnot hmem

theorem exists_same_iff {pairs : List (Item × Item)} {key : Item} :
    (∃ pair ∈ pairs, pair.1.same key = true) ↔ key ∈ pairs.map Prod.fst := by
  simp only [same_iff_eq, List.mem_map]

theorem lists_ofList (pairs : List (Item × Item)) :
    Lists pairs (OrderedMap.ofList pairs).entries where
  distinct := (OrderedMap.ofList pairs).nodup.imp same_eq_false_iff.2
  classes key := by
    rw [exists_same_iff, exists_same_iff]
    exact OrderedMap.mem_keys_ofList_iff
  latest entry hmem := by
    obtain ⟨before, after, hsplit, hlast⟩ :=
      OrderedMap.find?_ofList_eq_some_iff.1 (OrderedMap.mem_entries_iff.1 hmem)
    refine ⟨before, entry, after, hsplit, same_iff_eq.2 rfl, rfl, fun other hother => ?_⟩
    exact same_eq_false_iff.2 (hlast other hother)
  ordered := (OrderedMap.pairwise_keys_ofList pairs).imp heads_iff_precedes.2

theorem Lists.mem_iff {pairs entries : List (Item × Item)} (h : Lists pairs entries)
    (entry : Item × Item) : entry ∈ entries ↔ entry ∈ (OrderedMap.ofList pairs).entries := by
  -- an entry holds what its key is mapped to
  have hvalue : ∀ other ∈ entries, other ∈ (OrderedMap.ofList pairs).entries := by
    intro other hmem
    obtain ⟨before, pair, after, hsplit, hkey, hlast, hrest⟩ := h.latest other hmem
    obtain rfl : pair = other := Prod.ext (same_iff_eq.1 hkey) hlast
    exact OrderedMap.mem_entries_iff.2 (OrderedMap.find?_ofList_eq_some_iff.2 ⟨before, after,
      hsplit, fun later hlater => same_eq_false_iff.1 (hrest later hlater)⟩)
  refine ⟨hvalue entry, fun hmem => ?_⟩
  have hkey : entry.1 ∈ pairs.map Prod.fst :=
    OrderedMap.mem_keys_ofList_iff.1 (List.mem_map_of_mem hmem)
  obtain ⟨other, hother, hsame⟩ := (h.classes entry.1).2 (exists_same_iff.2 hkey)
  have hfound := OrderedMap.mem_entries_iff.1 (hvalue other hother)
  rw [same_iff_eq.1 hsame, OrderedMap.mem_entries_iff.1 hmem] at hfound
  obtain rfl : other = entry := Prod.ext (same_iff_eq.1 hsame) (Option.some.inj hfound).symm
  exact hother

/-- There is one such list. -/
theorem lists_iff {pairs entries : List (Item × Item)} :
    Lists pairs entries ↔ entries = (OrderedMap.ofList pairs).entries := by
  constructor
  · intro h
    have hkeys : (entries.map Prod.fst).Nodup := h.distinct.imp same_eq_false_iff.1
    have hperm : entries.Perm (OrderedMap.ofList pairs).entries :=
      (List.perm_ext_iff_of_nodup hkeys.of_map
        (OrderedMap.ofList pairs).nodup.of_map).2 h.mem_iff
    have hordered : entries.Pairwise fun a b => Heads (pairs.map Prod.fst) a.1 b.1 :=
      List.pairwise_map.1 h.ordered
    refine hperm.eq_of_pairwise ?_ hordered (List.pairwise_map.1 (lists_ofList pairs).ordered)
    intro a b _ _ hab hba
    exact absurd (heads_iff_precedes.1 hba) (heads_iff_precedes.1 hab).asymm
  · rintro rfl
    exact lists_ofList pairs

end Item

/-! ## Changes -/

/-- The map that a change writes. -/
def Change.target? : Change → Option MapRef
  | .insert r _ _ | .erase r _ => some r
  | _ => none

/-- The pairs of a map after a change: an inserted one comes to the end, and an erased key takes all
of its pairs away. -/
def Change.onPairs (r : MapRef) (pairs : List (Item × Item)) : Change → List (Item × Item)
  | .insert s key value => if s = r then pairs ++ [(key, value)] else pairs
  | .erase s key => if s = r then pairs.filter fun pair => !pair.1.same key else pairs
  | _ => pairs

def Event.onPairs (r : MapRef) (pairs : List (Item × Item)) : Event → List (Item × Item)
  | .change c => c.onPairs r pairs
  | .request _ => pairs

theorem Change.onPairs_of_target?_ne {r : MapRef} {change : Change} (h : change.target? ≠ some r)
    (pairs : List (Item × Item)) : change.onPairs r pairs = pairs := by
  cases change with
  | insert s key value => exact if_neg fun hs => h (congrArg some hs)
  | erase s key => exact if_neg fun hs => h (congrArg some hs)
  | _ => rfl

namespace Machine

variable {m : Machine}

theorem size_le_apply (m : Machine) (change : Change) :
    m.heap.arrays.size ≤ (m.apply change).heap.arrays.size ∧
      m.heap.maps.size ≤ (m.apply change).heap.maps.size := by
  cases change <;> simp [apply, Heap.newArray, Heap.newMap, Heap.setItems, Heap.insert]

theorem mapAt_apply {r : MapRef} {pairs : List (Item × Item)} (hr : m.heap.HoldsMap r)
    (h : m.heap.mapAt r = .ofList pairs) (change : Change) :
    (m.apply change).heap.mapAt r = .ofList (change.onPairs r pairs) := by
  cases change with
  | newMap others => exact (Heap.mapAt_newMap_of_holds hr others).trans h
  | insert s key value =>
    by_cases hs : s = r
    · subst hs
      rw [apply, Heap.insert, Heap.mapAt_write_self hr, h, Change.onPairs, if_pos rfl,
        OrderedMap.ofList_concat]
    · rw [apply, Heap.insert, Heap.mapAt_write_of_ne (Ne.symm hs), h, Change.onPairs, if_neg hs]
  | erase s key =>
    by_cases hs : s = r
    · subst hs
      have hkept : (fun pair : Item × Item => !pair.1.same key) =
          fun pair : Item × Item => decide (pair.1 ≠ key) := by
        funext pair
        rw [Bool.eq_iff_iff, Bool.not_eq_true', Item.same_eq_false_iff, decide_eq_true_iff]
      rw [apply, Heap.mapAt_write_self hr, h, Change.onPairs, if_pos rfl, OrderedMap.erase_ofList,
        hkept]
    · rw [apply, Heap.mapAt_write_of_ne (Ne.symm hs), h, Change.onPairs, if_neg hs]
  | _ => exact h

end Machine

/-- Behind the handles of containers that are shown one after the other are these containers. -/
theorem Session.map_get?_presentAll (memory : Memory) (s : Session) (containers : List Container) :
    let shown := s.presentAll memory (containers.map .node)
    shown.1.map (fun stub => shown.2.get? stub.handle) = containers.map some := by
  intro shown
  apply List.ext_getElem?
  intro i
  rw [List.getElem?_map, List.getElem?_map]
  cases hi : containers[i]? with
  | none =>
    have hend : shown.1[i]? = none := by
      rw [List.getElem?_eq_none_iff] at hi ⊢
      simpa [shown] using hi
    rw [hend]
    rfl
  | some c =>
    have hchild : (containers.map Child.node)[i]? = some (.node c) := by
      rw [List.getElem?_map, hi]
      rfl
    have hshown : ∃ stub, shown.1[i]? = some stub ∧ shown.2.get? stub.handle = some c :=
      get?_of_getElem?_presentAll hchild
    obtain ⟨stub, hstub, hget⟩ := hshown
    rw [hstub]
    exact congrArg some hget

namespace World

variable {w : World}

theorem size_le_run (w : World) (events : List Event) :
    w.memory.heap.arrays.size ≤ (w.run events).memory.heap.arrays.size ∧
      w.memory.heap.maps.size ≤ (w.run events).memory.heap.maps.size := by
  induction events generalizing w with
  | nil => exact ⟨Nat.le_refl _, Nat.le_refl _⟩
  | cons event events ih =>
    obtain ⟨harrays, hmaps⟩ := ih (w.step event)
    cases event with
    | change change =>
      obtain ⟨harrays', hmaps'⟩ := Machine.size_le_apply w.machine change
      exact ⟨Nat.le_trans harrays' harrays, Nat.le_trans hmaps' hmaps⟩
    | request request => exact ⟨harrays, hmaps⟩

theorem held_run {a : Item} (h : a.Held w.memory.heap) (events : List Event) :
    a.Held (w.run events).memory.heap := by
  obtain ⟨harrays, hmaps⟩ := size_le_run w events
  cases a with
  | array r => exact Nat.lt_of_lt_of_le h harrays
  | struct r => exact Nat.lt_of_lt_of_le h harrays
  | map r => exact Nat.lt_of_lt_of_le h hmaps
  | _ => trivial

theorem alike_run {a : Item} (h : a.Held w.memory.heap) (events : List Event) (b : Item) :
    Item.Alike (w.run events).memory.heap a b ↔ a.same b = true :=
  Item.alike_iff (held_run h events)

theorem mapAt_run {r : MapRef} {pairs : List (Item × Item)} (hr : w.memory.heap.HoldsMap r)
    (h : w.memory.heap.mapAt r = .ofList pairs) (events : List Event) :
    (w.run events).memory.heap.mapAt r = .ofList (events.foldl (Event.onPairs r) pairs) := by
  induction events generalizing w pairs with
  | nil => exact h
  | cons event events ih =>
    cases event with
    | change change =>
      have hr' : (w.machine.apply change).heap.HoldsMap r :=
        Nat.lt_of_lt_of_le hr (Machine.size_le_apply w.machine change).2
      exact ih (w := w.step (.change change)) hr' (Machine.mapAt_apply hr h change)
    | request request => exact ih (w := w.step (.request request)) hr h

theorem foldl_onPairs_of_target?_ne {r : MapRef} {events : List Event}
    (h : ∀ change, .change change ∈ events → change.target? ≠ some r)
    (pairs : List (Item × Item)) : events.foldl (Event.onPairs r) pairs = pairs := by
  induction events with
  | nil => rfl
  | cons event events ih =>
    have hevent : event.onPairs r pairs = pairs := by
      cases event with
      | change change => exact Change.onPairs_of_target?_ne (h change List.mem_cons_self) pairs
      | request request => rfl
    rw [List.foldl_cons, hevent]
    exact ih fun change hmem => h change (List.mem_cons_of_mem _ hmem)

/-! ## Expanding -/

/-- The container of an entry. -/
def entryContainer (entry : Item × Item) : Container :=
  ⟨.mapEntry entry.1 entry.2, "", none⟩

/-- Behind the stubs that an expansion shows for a map are its entries, in order. -/
theorem expand_map {handle : Int} {c : Container} {r : MapRef}
    (hc : w.session.get? handle = some c) (hr : c.subject = .map r) :
    ∃ stubs after, w.session.expand w.memory handle = .ok (stubs, after) ∧
      stubs.map (fun stub => after.get? stub.handle) =
        (w.memory.heap.entries r).map fun entry => some (entryContainer entry) := by
  obtain ⟨subject, name, path⟩ := c
  obtain rfl := hr
  have hbehind := Session.map_get?_presentAll w.memory w.session
    ((w.memory.heap.entries r).map entryContainer)
  rw [List.map_map, List.map_map] at hbehind
  exact ⟨_, _, expand_of_get? hc, hbehind⟩

theorem distinctKeys_run :
    (Equivalence fun a b : Item => a.same b = true) ∧
    (∀ a b : Item, a.hashInput = b.hashInput ↔ a.same b = true) ∧
    (∀ (w : World) (events : List Event) (a b : Item), a.Held w.memory.heap →
      (Item.Alike (w.run events).memory.heap a b ↔ a.same b = true)) ∧
    ∀ (w : World) (pairs : List (Item × Item)) (events : List Event),
      let made := w.machine.heap.newMap pairs
      let later := run ⟨{ w.machine with heap := made.2 }, w.session⟩ events
      let inserted := events.foldl (Event.onPairs made.1) pairs
      let entries := later.memory.heap.entries made.1
      ((∀ change, .change change ∈ events → change.target? ≠ some made.1) →
        inserted = pairs) ∧
      (∀ digest : String × Item.HashInput → UInt64,
        entries = OrderedMap.collectBy (digest ∘ Item.hashInput) Item.same inserted) ∧
      (∀ listed, Item.Lists inserted listed ↔ listed = entries) ∧
      ∀ handle c, later.session.get? handle = some c → c.subject = .map made.1 →
        ∃ stubs after, later.session.expand later.memory handle = .ok (stubs, after) ∧
          stubs.map (fun stub => after.get? stub.handle) =
            entries.map fun entry => some (entryContainer entry) := by
  refine ⟨Item.equivalence_same, fun a b => Item.hashInput_eq_iff,
    fun w events a b h => alike_run h events b, ?_⟩
  intro w pairs events made later inserted entries
  have hholds : made.2.HoldsMap made.1 := by
    simp [made, Heap.HoldsMap, Heap.newMap]
  have hmap : later.memory.heap.mapAt made.1 = .ofList inserted :=
    mapAt_run (w := ⟨{ w.machine with heap := made.2 }, w.session⟩) hholds
      (Heap.mapAt_newMap_self w.machine.heap pairs) events
  have hentries : entries = (OrderedMap.ofList inserted).entries :=
    congrArg OrderedMap.entries hmap
  refine ⟨fun h => foldl_onPairs_of_target?_ne h pairs, fun digest => ?_, fun listed => ?_,
    fun handle c hc hsubject => expand_map hc hsubject⟩
  · rw [OrderedMap.collectBy_eq _ fun a b => Item.same_iff_eq]
    exact hentries
  · rw [hentries]
    exact Item.lists_iff

/-- An array and a struct over the same elements are two keys, and the map is a key of its own. The
elements change in between. -/
theorem distinctKeys_run_shared :
    let elements : ArrayRef := ⟨0⟩
    let self : MapRef := ⟨0⟩
    let table : Container := ⟨.map self, "table", none⟩
    let w : World := ⟨⟨⟨#[[.integer 1]], #[]⟩, .empty⟩, .start {}⟩
    let pairs : List (Item × Item) :=
      [(.array elements, .integer 1), (.struct elements, .integer 2), (.array elements, .integer 3)]
    let quiet : List Event := [.request (.register table), .change (.push elements (.map self))]
    let writes : List Event := [.change (.insert self (.map self) (.boolean true)),
      .change (.insert self (.struct elements) (.map self))]
    let start : World := ⟨⟨(w.machine.heap.newMap pairs).2, .empty⟩, w.session⟩
    let later := run start (quiet ++ writes)
    let inserted := pairs ++ [(.map self, .boolean true), (.struct elements, .map self)]
    let entries : List (Item × Item) :=
      [(.array elements, .integer 3), (.struct elements, .map self), (.map self, .boolean true)]
    (Item.array elements).Held w.memory.heap ∧
      Item.Alike (w.run quiet).memory.heap (.array elements) (.array elements) ∧
      ¬Item.Alike (w.run quiet).memory.heap (.array elements) (.struct elements) ∧
      (∀ change, .change change ∈ quiet → change.target? ≠ some self) ∧
      Item.Lists pairs ((run start quiet).memory.heap.entries self) ∧
      Item.Lists inserted entries ∧
      later.session.get? 1 = some table ∧
      ∃ stubs after, later.session.expand later.memory 1 = .ok (stubs, after) ∧
        stubs.map (fun stub => after.get? stub.handle) =
          entries.map fun entry => some (entryContainer entry) := by
  intro elements self table w pairs quiet writes start later inserted entries
  obtain ⟨-, -, halike, hrun⟩ := distinctKeys_run
  have hheld : (Item.array elements).Held w.memory.heap := Nat.zero_lt_one
  have hquiet : ∀ change, .change change ∈ quiet → change.target? ≠ some self := by
    simp [quiet, Change.target?]
  obtain ⟨hpairs, -, hlists, -⟩ := hrun w pairs quiet
  obtain ⟨-, -, hlists', hexpand⟩ := hrun w pairs (quiet ++ writes)
  rw [hpairs hquiet] at hlists
  have hentries : later.memory.heap.entries self = entries := by decide
  have hget : later.session.get? 1 = some table := by decide
  obtain ⟨stubs, after, hstubs, hbehind⟩ := hexpand 1 table hget rfl
  refine ⟨hheld, (halike w quiet _ _ hheld).2 (by decide), ?_, hquiet, (hlists _).2 rfl,
    (hlists' _).2 hentries.symm, hget, stubs, after, hstubs, ?_⟩
  · rw [halike w quiet _ _ hheld]
    decide
  · rw [← hentries]
    exact hbehind

end World
end ScriptScope

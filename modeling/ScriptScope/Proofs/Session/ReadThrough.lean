import ScriptScope.Proofs.Session.Captions

/-!
# ScriptScope.Proofs.Session.ReadThrough

What an expansion shows while the machine goes on between the requests.

The machine changes its arrays, its maps and the storage of its contracts (`Change`), and whoever
holds a reference sees the change. In between a client asks for whatever it likes. `World.run` lets
both happen in any order.

* `get?_run`: what is behind a handle stays there until the handles are released.
* `reads_children`: a container of shared composites, of locals or of storage shows what they hold
  now. A stack keeps its list of items, and an entry its key and value; what these items hold in
  turn is shown as it is now.
* `expand_run`: so an expansion shows what a container that is registered only now would show, and
  an entry shown by it can be opened later as it was.
-/

namespace ScriptScope

/-! ## A machine that goes on -/

/-- The composites of a machine and the storage of its contracts. -/
structure Machine where
  heap : Heap
  storage : Storage

/-- What the machine does to them between two requests. -/
inductive Change where
  | newArray (items : List Item)
  | newMap (pairs : List (Item × Item))
  | push (r : ArrayRef) (item : Item)
  | set (r : ArrayRef) (i : Nat) (item : Item)
  | remove (r : ArrayRef) (i : Nat)
  | insert (r : MapRef) (key value : Item)
  | erase (r : MapRef) (key : Item)
  | put (contract : ScriptHash) (entry : StorageEntry)
  | clear (contract : ScriptHash)

namespace Machine

def memory (m : Machine) : Memory :=
  ⟨m.heap, m.storage.entries⟩

def apply (m : Machine) : Change → Machine
  | .newArray items => { m with heap := (m.heap.newArray items).2 }
  | .newMap pairs => { m with heap := (m.heap.newMap pairs).2 }
  | .push r item => { m with heap := m.heap.setItems r (m.heap.items r ++ [item]) }
  | .set r i item => { m with heap := m.heap.setItems r ((m.heap.items r).set i item) }
  | .remove r i => { m with heap := m.heap.setItems r ((m.heap.items r).eraseIdx i) }
  | .insert r key value => { m with heap := m.heap.insert r key value }
  | .erase r key =>
    { m with heap := { m.heap with
        maps := m.heap.maps.setIfInBounds r.index ((m.heap.mapAt r).erase key) } }
  | .put contract entry => { m with storage := m.storage.put contract entry }
  | .clear contract => { m with storage := m.storage.clear contract }

end Machine

inductive Event where
  | change (change : Change)
  | request (request : Session.Request)

/-- A machine and the session of a client that looks into it. -/
structure World where
  machine : Machine
  session : Session

namespace World

def memory (w : World) : Memory :=
  w.machine.memory

def step (w : World) : Event → World
  | .change change => { w with machine := w.machine.apply change }
  | .request request => { w with session := (w.session.answer w.memory request).2 }

def run (w : World) (events : List Event) : World :=
  events.foldl step w

/-- Whether the handles are never released. -/
def Keeps (events : List Event) : Prop :=
  ∀ event ∈ events, event ≠ .request .clear

theorem session_step {w : World} {event : Event} (h : event ≠ .request .clear) :
    (w.step event).session.presentation = w.session.presentation ∧
      w.session.nextHandle ≤ (w.step event).session.nextHandle ∧
      ∀ handle : Int, handle < w.session.nextHandle →
        (w.step event).session.get? handle = w.session.get? handle := by
  cases event with
  | change change => exact ⟨rfl, Nat.le_refl _, fun _ _ => rfl⟩
  | request request =>
    have hne : request ≠ .clear := by
      rintro rfl
      exact h rfl
    exact ⟨Session.presentation_answer .., Session.nextHandle_le_answer ..,
      fun handle hlt => Session.get?_answer hlt hne⟩

theorem session_run {w : World} {events : List Event} (h : Keeps events) :
    (w.run events).session.presentation = w.session.presentation ∧
      ∀ handle : Int, handle < w.session.nextHandle →
        (w.run events).session.get? handle = w.session.get? handle := by
  induction events generalizing w with
  | nil => exact ⟨rfl, fun _ _ => rfl⟩
  | cons event events ih =>
    obtain ⟨hhead, hrest⟩ := List.forall_mem_cons.1 h
    obtain ⟨hpres, hmono, hget⟩ := session_step (w := w) hhead
    obtain ⟨hpres', hget'⟩ := ih (w := w.step event) hrest
    refine ⟨hpres'.trans hpres, fun handle hlt => ?_⟩
    exact (hget' handle (by omega)).trans (hget handle hlt)

theorem get?_run {w : World} {handle : Int} {c : Container} {events : List Event}
    (h : Keeps events) (hc : w.session.get? handle = some c) :
    (w.run events).session.get? handle = some c :=
  ((session_run h).2 handle (Session.lt_nextHandle hc)).trans hc

end World

/-! ## What a container shows -/

/-- The captions of the halves of a map entry. -/
def Item.entryCaptions (heap : Heap) (key value : Item) : List Caption :=
  [key.caption heap "key" none, value.caption heap "value" none]

/-- The captions of the parts of a storage entry. -/
def StorageEntry.partCaptions (presentation : Presentation) (path : Option String)
    (entry : StorageEntry) : List Caption :=
  let half (name : String) (content : Bytes) : Caption :=
    ⟨name, Item.sized "Byte" content.length ++
        (if presentation.hashStorageBuffers then
          " #" ++ String.ofList (Hex.word (contentHash content)) else ""),
      Item.hexText content, path.map fun p => p ++ "." ++ name⟩
  [half "key" entry.key, half "value" entry.value,
    ⟨"constant", "Boolean", if entry.isConstant then "true" else "false", none⟩]

/-- Whether stubs show what a container holds: the memory of the moment where the container only
refers to it, and what the container keeps where it was made from a copy. -/
structure Reads (memory : Memory) (presentation : Presentation) (c : Container)
    (stubs : List Stub) : Prop where
  elements : ∀ r isStruct, c.subject = .sequence (.shared r) isStruct →
    stubs.map Stub.caption = Item.captions memory.heap c.evaluatePath (memory.heap.items r)
  map : ∀ r, c.subject = .map r →
    stubs.map Stub.caption = (memory.heap.entries r).map fun entry =>
      ⟨"", "MapEntry", entry.1.preview memory.heap ++ ": " ++ entry.2.preview memory.heap, none⟩
  locals : ∀ r slots, c.subject = .frame (some r) slots →
    stubs.map Stub.caption = (memory.heap.items r).mapIdx fun i item =>
      item.caption memory.heap (slotName slots i) (slotPath? slots i)
  noLocals : ∀ slots, c.subject = .frame none slots → stubs = []
  storage : ∀ contract, c.subject = .storage contract →
    stubs.map Stub.caption = (memory.storage contract).map StorageEntry.caption
  copy : ∀ items isStruct, c.subject = .sequence (.snapshot items) isStruct →
    stubs.map Stub.caption = Item.captions memory.heap c.evaluatePath items
  stack : ∀ context name, Frame.stackContainer? context name = some c →
    ∃ items, Frame.stackItems? context name = some items ∧
      stubs.map Stub.caption = Item.captions memory.heap c.evaluatePath items
  mapEntry : ∀ key value, c.subject = .mapEntry key value →
    stubs.map Stub.caption = Item.entryCaptions memory.heap key value
  storageEntry : ∀ entry, c.subject = .storageEntry entry →
    stubs.map Stub.caption = entry.partCaptions presentation c.evaluatePath

namespace Session

variable {memory : Memory} {s : Session}

theorem map_caption_snapshot {c : Container} {items : List Item} {isStruct : Bool}
    (h : c.subject = .sequence (.snapshot items) isStruct) :
    (s.presentAll memory (c.children memory s.presentation)).1.map Stub.caption =
      Item.captions memory.heap c.evaluatePath items := by
  obtain ⟨subject, name, path⟩ := c
  obtain rfl := h
  rw [map_caption_presentAll]
  exact Container.map_caption_elements ..

theorem reads_children (memory : Memory) (s : Session) (c : Container) :
    Reads memory s.presentation c
      (s.presentAll memory (c.children memory s.presentation)).1 := by
  obtain ⟨subject, name, path⟩ := c
  refine ⟨?_, ?_, ?_, ?_, ?_, fun _ _ => map_caption_snapshot, ?_, ?_, ?_⟩
  · rintro r isStruct rfl
    rw [map_caption_presentAll]
    exact Container.map_caption_elements ..
  · rintro r rfl
    rw [map_caption_presentAll, Container.children, List.map_map]
    rfl
  · rintro r slots rfl
    rw [map_caption_presentAll]
    exact Container.map_caption_locals ..
  · rintro slots rfl
    rfl
  · rintro contract rfl
    rw [map_caption_presentAll, Container.children, List.map_map]
    rfl
  · intro context stack hstack
    obtain ⟨items, hitems, hc⟩ := Option.map_eq_some_iff.1 hstack
    exact ⟨items, hitems, map_caption_snapshot (congrArg Container.subject hc).symm⟩
  · rintro key value rfl
    rw [map_caption_presentAll, Container.children, List.map_cons, List.map_cons,
      Child.caption_ofItem, Child.caption_ofItem]
    rfl
  · rintro entry rfl
    rw [map_caption_presentAll]
    rfl

theorem get?_register_self (memory : Memory) (c : Container) (s : Session) :
    (s.register memory c).2.get? (s.register memory c).1.handle = some c := by
  rw [register_handle, get?_register, if_pos rfl]

/-- The handle of a child stands for the container that the child shows. -/
theorem get?_of_getElem?_presentAll {children : List Child} {c : Container} {i : Nat}
    (h : children[i]? = some (.node c)) :
    ∃ stub, (s.presentAll memory children).1[i]? = some stub ∧
      (s.presentAll memory children).2.get? stub.handle = some c := by
  induction children generalizing s i with
  | nil => cases h
  | cons child children ih =>
    rw [presentAll_cons]
    cases i with
    | zero =>
      obtain rfl : child = .node c := Option.some.inj h
      refine ⟨_, rfl, ?_⟩
      have hget := get?_register_self memory c s
      exact (get?_presentAll (lt_nextHandle hget) children).trans hget
    | succ i => exact ih h

end Session

namespace World

/-- Whether what an expansion has shown can be opened later: the entries of a map and of a storage
are then as they were when they were shown. -/
structure Retains (w : World) (c : Container) (stubs : List Stub) (later : World) : Prop where
  mapEntry : ∀ r (i : Nat) key value, c.subject = .map r →
    (w.memory.heap.entries r)[i]? = some (key, value) →
    ∃ (stub : Stub) (parts : List Stub) (after : Session), stubs[i]? = some stub ∧
      later.session.expand later.memory stub.handle = .ok (parts, after) ∧
      parts.map Stub.caption = Item.entryCaptions later.memory.heap key value
  storageEntry : ∀ contract (i : Nat) (entry : StorageEntry), c.subject = .storage contract →
    (w.memory.storage contract)[i]? = some entry →
    ∃ (stub : Stub) (parts : List Stub) (after : Session), stubs[i]? = some stub ∧
      later.session.expand later.memory stub.handle = .ok (parts, after) ∧
      parts.map Stub.caption = entry.partCaptions later.session.presentation
        (some (EvaluatePath.storageEntry entry.keyHash).text)

theorem expand_of_get? {w : World} {handle : Int} {c : Container}
    (h : w.session.get? handle = some c) :
    w.session.expand w.memory handle =
      .ok (w.session.presentAll w.memory (c.children w.memory w.session.presentation)) := by
  rw [Session.expand, h]

/-- A child that can be opened is later opened from what it was made from. -/
theorem reads_later {w : World} {children : List Child} {c : Container} {i : Nat}
    (h : children[i]? = some (.node c)) {more : List Event} (hkeeps : Keeps more) :
    let shown := w.session.presentAll w.memory children
    let later := run ⟨w.machine, shown.2⟩ more
    ∃ stub parts after, shown.1[i]? = some stub ∧
      later.session.expand later.memory stub.handle = .ok (parts, after) ∧
      Reads later.memory later.session.presentation c parts := by
  intro shown later
  have hshown : ∃ stub, shown.1[i]? = some stub ∧ shown.2.get? stub.handle = some c :=
    Session.get?_of_getElem?_presentAll h
  obtain ⟨stub, hstub, hget⟩ := hshown
  have hlater : later.session.get? stub.handle = some c := get?_run hkeeps hget
  exact ⟨stub, _, _, hstub, expand_of_get? hlater, Session.reads_children ..⟩

theorem retains_expand {w : World} {handle : Int} {c : Container} {stubs : List Stub}
    {after : Session} (hget : w.session.get? handle = some c)
    (hexpand : w.session.expand w.memory handle = .ok (stubs, after)) {more : List Event}
    (hkeeps : Keeps more) : w.Retains c stubs (run ⟨w.machine, after⟩ more) := by
  obtain ⟨subject, name, path⟩ := c
  rw [expand_of_get? hget] at hexpand
  obtain ⟨rfl, rfl⟩ := Prod.mk.inj (Except.ok.inj hexpand)
  refine ⟨?_, ?_⟩
  · rintro r i key value rfl hentry
    have hchild : (Container.children w.memory w.session.presentation ⟨.map r, name, path⟩)[i]? =
        some (.node ⟨.mapEntry key value, "", none⟩) := by
      rw [Container.children, List.getElem?_map, hentry]
      rfl
    obtain ⟨stub, parts, after, hstub, hparts, hreads⟩ := reads_later hchild hkeeps
    exact ⟨stub, parts, after, hstub, hparts, hreads.mapEntry key value rfl⟩
  · rintro contract i entry rfl hentry
    have hchild : (Container.children w.memory w.session.presentation
        ⟨.storage contract, name, path⟩)[i]? = some (Container.storageChild entry) := by
      rw [Container.children, List.getElem?_map, hentry]
      rfl
    obtain ⟨stub, parts, after, hstub, hparts, hreads⟩ := reads_later hchild hkeeps
    exact ⟨stub, parts, after, hstub, hparts, hreads.storageEntry entry rfl⟩

/-- What follows for a container behind a handle once some events have passed: it shows what it
holds then, which is what a fresh container shows, and what it shows can be opened later still. -/
def Follows (w : World) (events : List Event) (handle : Int) (c : Container) : Prop :=
  let later := w.run events
  let fresh := later.session.register later.memory c
  ∃ stubs after again afterwards,
    later.session.expand later.memory handle = .ok (stubs, after) ∧
    fresh.2.expand later.memory fresh.1.handle = .ok (again, afterwards) ∧
    stubs.map Stub.unnumbered = again.map Stub.unnumbered ∧
    Reads later.memory w.session.presentation c stubs ∧
    ∀ more, Keeps more → later.Retains c stubs (run ⟨later.machine, after⟩ more)

theorem follows_of_get? {w : World} {events : List Event} (hkeeps : Keeps events) {handle : Int}
    {c : Container} (hc : w.session.get? handle = some c) : w.Follows events handle c := by
  let later := w.run events
  let fresh := later.session.register later.memory c
  have hget : later.session.get? handle = some c := get?_run hkeeps hc
  have hfresh : fresh.2.get? fresh.1.handle = some c := Session.get?_register_self ..
  have hpresentation : later.session.presentation = w.session.presentation :=
    (session_run hkeeps).1
  have hexpand := expand_of_get? hget
  have hagain := expand_of_get? (w := ⟨later.machine, fresh.2⟩) hfresh
  refine ⟨_, _, _, _, hexpand, hagain, ?_, ?_, ?_⟩
  · rw [Session.map_unnumbered_presentAll, Session.map_unnumbered_presentAll]
    rfl
  · rw [← hpresentation]
    exact Session.reads_children ..
  · intro more hmore
    exact retains_expand hget hexpand hmore

theorem expand_run (w : World) (events : List Event) (hkeeps : Keeps events) :
    (∀ c, let given := w.session.register w.memory c
      Follows ⟨w.machine, given.2⟩ events given.1.handle c) ∧
    ∀ handle c, w.session.get? handle = some c → w.Follows events handle c := by
  refine ⟨fun c => ?_, fun handle c hc => follows_of_get? hkeeps hc⟩
  exact follows_of_get? hkeeps (Session.get?_register_self ..)

/-- A map entry that is shown while its value grows, and opened after it was overwritten. -/
theorem expand_run_overwritten :
    let table : Container := ⟨.map ⟨0⟩, "table", none⟩
    let heap : Heap := ⟨#[[]], #[.ofList [(.integer 5, .boolean true)]]⟩
    let given := (Session.start {}).register ⟨heap, fun _ => []⟩ table
    let events : List Event := [.change (.insert ⟨0⟩ (.integer 6) (.array ⟨0⟩)),
      .request (.expand 1), .change (.push ⟨0⟩ (.integer 7))]
    let more : List Event := [.change (.insert ⟨0⟩ (.integer 6) (.boolean false)),
      .change (.push ⟨0⟩ (.struct ⟨0⟩))]
    let later := run ⟨⟨heap, .empty⟩, given.2⟩ events
    Keeps events ∧ Keeps more ∧
      ∃ stubs after, later.session.expand later.memory 1 = .ok (stubs, after) ∧
        stubs.map Stub.caption =
          [⟨"", "MapEntry", "5: true", none⟩, ⟨"", "MapEntry", "6: Array[1]", none⟩] ∧
        let last := run ⟨later.machine, after⟩ more
        ∃ stub parts end_, stubs[1]? = some stub ∧
          last.session.expand last.memory stub.handle = .ok (parts, end_) ∧
          parts.map Stub.caption =
            [⟨"key", "Integer", "6", none⟩, ⟨"value", "Array[2]", "Array[2]", none⟩] := by
  intro table heap given events more later
  have hevents : Keeps events := by
    simp [Keeps, events]
  have hmore : Keeps more := by
    simp [Keeps, more]
  obtain ⟨stubs, after, -, -, hexpand, -, -, hreads, hretains⟩ :=
    (expand_run ⟨⟨heap, .empty⟩, .start {}⟩ events hevents).1 table
  have hshown := hreads.map ⟨0⟩ rfl
  obtain ⟨stub, parts, end_, hstub, hparts, hcaptions⟩ :=
    (hretains more hmore).mapEntry ⟨0⟩ 1 (.integer 6) (.array ⟨0⟩) rfl (by decide +kernel)
  refine ⟨hevents, hmore, stubs, after, hexpand, ?_, stub, parts, end_, hstub, hparts, ?_⟩
  · rw [hshown]
    decide +kernel
  · rw [hcaptions]
    -- the changes do not depend on the session
    change Item.entryCaptions (run ⟨later.machine, given.2⟩ more).memory.heap _ _ = _
    decide +kernel

end World
end ScriptScope

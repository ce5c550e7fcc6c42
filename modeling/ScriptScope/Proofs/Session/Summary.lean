import ScriptScope.Proofs.Session.Log

/-!
# ScriptScope.Proofs.Session.Summary

What a stub says about what is below it, and what expanding it shows. Counts, label and preview of
a container are computed apart from its children, each from the memory of the machine.

* `Container.counts_stub`: the count of a container is the number of its children, whatever the
  limit on bytes.
* `counted_answer`: of all the stubs that a session shows, a leaf counts nothing, and any other
  stub counts what has an index or what has a name.
* `summarizes_run`: a registered container is shown as what it expands to later.
-/

namespace ScriptScope

/-- A stub that counts children which all have an index, or which all have a name. -/
def Stub.Counts (stub : Stub) (n : Nat) : Prop :=
  (stub.indexedCount = some n ∧ stub.namedCount = none) ∨
    (stub.indexedCount = none ∧ stub.namedCount = some n)

/-- A leaf has no handle and counts nothing; any other stub counts in one way. -/
def Stub.Counted (stub : Stub) : Prop :=
  if stub.isLeaf then stub.handle = 0 ∧ stub.indexedCount = none ∧ stub.namedCount = none
  else ∃ n, stub.Counts n

/-- The items of the machine that a subject shows one by one. -/
def Subject.shownItems? (heap : Heap) : Subject → Option (List Item)
  | .sequence elements _ => some (elements.items heap)
  | .mapEntry key value => some [key, value]
  | .frame locals _ => some (localItems heap locals)
  | .bytes _ _ | .map _ | .storage _ | .storageEntry _ => none

namespace Child

def preview (memory : Memory) : Child → String
  | .leaf _ _ value _ => value
  | .node c => c.subject.preview memory

theorem preview_ofItem (memory : Memory) (name : String) (path : Option String) (item : Item) :
    (ofItem memory.heap name path item).preview memory = item.preview memory.heap := by
  cases item <;> rfl

end Child

namespace Container

variable (memory : Memory) (presentation : Presentation) (c : Container)

theorem counts_stub (handle : Int) :
    (c.stub memory presentation.byteLimit handle).Counts
      (c.children memory presentation).length := by
  obtain ⟨subject, name, path⟩ := c
  cases subject with
  | bytes content tagged =>
    refine .inl ⟨?_, rfl⟩
    cases hlimit : presentation.byteLimit with
    | none => simp [stub, Subject.counts, children, hlimit]
    | some n => simp [stub, Subject.counts, children, hlimit, Nat.min_comm]
  | sequence elements isStruct => exact .inl ⟨by simp [stub, Subject.counts, children], rfl⟩
  | map r => exact .inl ⟨by simp [stub, Subject.counts, children], rfl⟩
  | mapEntry key value => exact .inr ⟨rfl, rfl⟩
  | frame locals slots => exact .inr ⟨rfl, by simp [stub, Subject.counts, children]⟩
  | storage contract => exact .inr ⟨rfl, by simp [stub, Subject.counts, children]⟩
  | storageEntry entry => exact .inr ⟨rfl, rfl⟩

theorem preview_slotChild (slots : List Declaration) (item : Item) (i : Nat) :
    (slotChild memory.heap slots item i).preview memory = item.preview memory.heap := by
  unfold slotChild
  cases slots[i]? with
  | none => exact Child.preview_ofItem ..
  | some d => exact Child.preview_ofItem ..

variable {memory} in
theorem map_preview_zipIdx {shown : Item × Nat → Child}
    (h : ∀ item i, (shown (item, i)).preview memory = item.preview memory.heap)
    (items : List Item) :
    (items.zipIdx.map shown).map (Child.preview memory) =
      items.map (Item.preview memory.heap) := by
  calc (items.zipIdx.map shown).map (Child.preview memory)
      = items.zipIdx.map fun entry => entry.1.preview memory.heap := by
        rw [List.map_map]
        exact List.map_congr_left fun entry _ => h entry.1 entry.2
    _ = (items.zipIdx.map Prod.fst).map (Item.preview memory.heap) := by
        rw [List.map_map]
        rfl
    _ = items.map (Item.preview memory.heap) := by rw [List.zipIdx_map_fst]

theorem map_preview_children {items : List Item}
    (h : c.subject.shownItems? memory.heap = some items) :
    (c.children memory presentation).map (Child.preview memory) =
      items.map (Item.preview memory.heap) := by
  obtain ⟨subject, name, path⟩ := c
  cases subject with
  | sequence elements isStruct =>
    cases h
    simp only [children]
    exact map_preview_zipIdx (fun item i => Child.preview_ofItem ..) _
  | mapEntry key value =>
    cases h
    simp only [children, List.map_cons, List.map_nil, Child.preview_ofItem]
  | frame locals slots =>
    cases h
    simp only [children]
    exact map_preview_zipIdx (fun item i => preview_slotChild ..) _
  | _ => cases h

end Container

namespace Session

variable {memory : Memory} {s : Session}

theorem value_present (memory : Memory) (s : Session) (child : Child) :
    (s.present memory child).1.value = child.preview memory := by
  cases child <;> rfl

theorem map_value_presentAll (children : List Child) :
    (s.presentAll memory children).1.map Stub.value = children.map (Child.preview memory) := by
  induction children generalizing s with
  | nil => rfl
  | cons child children ih =>
    rw [presentAll_cons, List.map_cons, List.map_cons, value_present, ih]

theorem counted_present (memory : Memory) (s : Session) (child : Child) :
    (s.present memory child).1.Counted := by
  cases child with
  | leaf name typeLabel value path => exact ⟨rfl, rfl, rfl⟩
  | node c =>
    have hleaf : ¬(s.present memory (.node c)).1.isLeaf = true := by
      rw [isLeaf_present]
      exact Bool.false_ne_true
    rw [Stub.Counted, if_neg hleaf]
    exact ⟨_, c.counts_stub memory s.presentation s.nextHandle⟩

theorem counted_presentAll (children : List Child) :
    ∀ stub ∈ (s.presentAll memory children).1, stub.Counted := by
  induction children generalizing s with
  | nil =>
    intro stub hstub
    cases hstub
  | cons child children ih =>
    intro stub hstub
    rw [presentAll_cons] at hstub
    rcases List.mem_cons.1 hstub with rfl | hstub
    · exact counted_present memory s child
    · exact ih stub hstub

/-- Every stub that a session shows. -/
theorem counted_answer {request : Request} {stubs : List Stub}
    (h : (s.answer memory request).1 = .ok stubs) : ∀ stub ∈ stubs, stub.Counted := by
  by_cases hne : request = .clear
  · subst hne
    cases h
    intro stub hstub
    cases hstub
  · rw [answer_eq memory s hne] at h
    split at h
    · cases h
    · cases h
      exact counted_presentAll _

/-! ## A registered container -/

/-- Whether the stub of a subject agrees with the stubs that it expands to. -/
structure Summarizes (settings : Settings) (memory : Memory) (subject : Subject) (stub : Stub)
    (stubs : List Stub) : Prop where
  counts : stub.Counts stubs.length
  bytes : ∀ content tagged, subject = .bytes content tagged →
    stub.indexedCount = some (if settings.maxByteChildren = 0 then content.length
      else min content.length settings.maxByteChildren) ∧
    stub.typeLabel = Item.sized "Byte" content.length ++
      if tagged then " #" ++ String.ofList (Hex.word (contentHash content)) else ""
  sequence : ∀ elements isStruct, subject = .sequence elements isStruct →
    stub.indexedCount = some stubs.length ∧
    stub.typeLabel = Item.sized (if isStruct then "Struct" else "Array") stubs.length
  map : ∀ r, subject = .map r →
    stub.indexedCount = some stubs.length ∧ stub.typeLabel = Item.sized "Map" stubs.length
  items : ∀ items, subject.shownItems? memory.heap = some items →
    stubs.map Stub.value = items.map (Item.preview memory.heap)
  mapEntry : ∀ k v, subject = .mapEntry k v →
    ∃ key value, stubs = [key, value] ∧ stub.value = key.value ++ ": " ++ value.value
  storageEntry : ∀ entry, subject = .storageEntry entry →
    ∃ key value constant, stubs = [key, value, constant] ∧ stub.value = value.value

variable {settings : Settings}

theorem summarizes_presentAll (memory : Memory) (c : Container) (handle : Int)
    (hs : s.presentation = (start settings).presentation) :
    Summarizes settings memory c.subject (c.stub memory s.presentation.byteLimit handle)
      (s.presentAll memory (c.children memory s.presentation)).1 where
  counts := by
    rw [length_presentAll]
    exact c.counts_stub memory s.presentation handle
  bytes content tagged h := by
    refine ⟨?_, ?_⟩
    · simp only [Container.stub, h, Subject.counts, hs, start, Settings.byteLimit]
      by_cases hzero : settings.maxByteChildren = 0
      · simp [hzero]
      · simp [hzero, Nat.pos_of_ne_zero hzero]
    · simp only [Container.stub, h, Subject.typeLabel]
  sequence elements isStruct h := by
    rw [length_presentAll, Container.length_children_sequence h]
    refine ⟨?_, ?_⟩
    · simp only [Container.stub, h, Subject.counts]
    · simp only [Container.stub, h, Subject.typeLabel]
  map r h := by
    rw [length_presentAll, Container.length_children_map h]
    refine ⟨?_, ?_⟩
    · simp only [Container.stub, h, Subject.counts]
    · simp only [Container.stub, h, Subject.typeLabel]
  items items h := by
    rw [map_value_presentAll, c.map_preview_children memory s.presentation h]
  mapEntry k v h := by
    simp only [Container.children, h, presentAll_cons]
    refine ⟨_, _, rfl, ?_⟩
    rw [value_present, value_present, Child.preview_ofItem, Child.preview_ofItem]
    simp only [Container.stub, h, Subject.preview]
  storageEntry entry h := by
    simp only [Container.children, h, presentAll_cons]
    refine ⟨_, _, _, rfl, ?_⟩
    simp only [value_present, Container.stub, h, Subject.preview]
    rfl

/-! ## Over a run -/

/-- What is registered stays behind its handle while nothing is cleared. -/
theorem get?_run_register (settings : Settings) (turns : List (Memory × Request))
    {more : List (Memory × Request)} (memory : Memory) (c : Container)
    (hlive : ∀ turn ∈ more, turn.2 ≠ .clear) :
    (Log.run settings (turns ++ (memory, .register c) :: more)).session.get?
      (Log.run settings turns).session.nextHandle = some c := by
  let s := (Log.run settings turns).session
  have hregister : ((Log.run settings turns).step (memory, .register c)).session =
      (s.register memory c).2 := Log.session_step ..
  have hlt : (s.nextHandle : Int) < (s.register memory c).2.nextHandle := by
    rw [nextHandle_register]
    omega
  rw [← hregister] at hlt
  rw [Log.run, List.foldl_append, List.foldl_cons]
  refine (Log.get?_foldl hlt hlive).trans ?_
  rw [hregister, get?_register, if_pos rfl]

theorem summarizes_run (settings : Settings) (turns more : List (Memory × Request))
    (memory : Memory) (c : Container) (hlive : ∀ turn ∈ more, turn.2 ≠ .clear) :
    let s := (Log.run settings turns).session
    let later := (Log.run settings (turns ++ (memory, .register c) :: more)).session
    let stub := (s.register memory c).1
    (∃ stubs after, later.expand memory stub.handle = .ok (stubs, after) ∧
      Summarizes settings memory c.subject stub stubs) ∧
    stub.isLeaf = false ∧
    (∀ name path item,
      (s.presentItem memory name path item).1.value = item.preview memory.heap) ∧
    ∀ request stubs, (s.answer memory request).1 = .ok stubs → ∀ shown ∈ stubs, shown.Counted := by
  intro s later stub
  have hs : s.presentation = (start settings).presentation := Log.presentation_foldl ..
  have hlater : later.presentation = (start settings).presentation := Log.presentation_foldl ..
  have hget : later.get? stub.handle = some c :=
    get?_run_register settings turns memory c hlive
  have hexpand : later.expand memory stub.handle =
      .ok (later.presentAll memory (c.children memory later.presentation)) := by
    rw [expand, hget]
  have hsummary := summarizes_presentAll memory c stub.handle hlater
  rw [show c.stub memory later.presentation.byteLimit stub.handle = stub by
    rw [hlater, ← hs]
    rfl] at hsummary
  refine ⟨⟨_, _, hexpand, hsummary⟩, isLeaf_present memory s (.node c), ?_, ?_⟩
  · intro name path item
    rw [presentItem, value_present, Child.preview_ofItem]
  · intro request stubs h
    exact counted_answer h

/-- Three bytes of which two are shown, expanded a second time. -/
theorem summarizes_run_limited :
    let settings : Settings := { maxByteChildren := 2 }
    let memory : Memory := ⟨.empty, fun _ => []⟩
    let buffer : Container := ⟨.bytes [1, 2, 3] false, "buffer", none⟩
    let more : List (Memory × Request) := [(memory, .expand 1)]
    let later := (Log.run settings ((memory, .register buffer) :: more)).session
    let stub : Stub := ⟨"buffer", "Byte[3]", "0x010203", 1, some 2, none, none⟩
    (∀ turn ∈ more, turn.2 ≠ .clear) ∧
      ((start settings).register memory buffer).1 = stub ∧
      ∃ stubs after, later.expand memory 1 = .ok (stubs, after) ∧
        Summarizes settings memory buffer.subject stub stubs ∧ stubs.length = 2 := by
  intro settings memory buffer more later stub
  have hlive : ∀ turn ∈ more, turn.2 ≠ .clear := by
    intro turn hturn
    rw [List.mem_singleton.1 hturn]
    intro h
    cases h
  have hstub : ((start settings).register memory buffer).1 = stub := by decide +kernel
  obtain ⟨⟨stubs, after, hexpand, hsummary⟩, -⟩ :=
    summarizes_run settings [] more memory buffer hlive
  have hrun : ((Log.run settings []).session.register memory buffer).1 = stub := hstub
  rw [hrun] at hexpand hsummary
  refine ⟨hlive, hstub, stubs, after, hexpand, hsummary, ?_⟩
  have hcount : some 2 = some stubs.length := (hsummary.counts.resolve_right (by simp [stub])).1
  exact (Option.some.inj hcount).symm

end Session
end ScriptScope

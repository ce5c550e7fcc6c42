import ScriptScope.Proofs.Frame.Walk

/-!
# ScriptScope.Proofs.Frame.Indexing

Two ways below a value: to expand what its path selects, and to evaluate the path one index further.
They lead to the same children, whatever the heap holds.

* `evaluate_index?_of_error`: a path that fails goes on to fail in the same way.
* `evaluate_index?`: below an array, a struct or a stack the longer path selects the element, or
  says that there is none; below anything else it says that there are no elements.
* `evaluatePathIn_index`: so evaluating and expanding commute, and what is selected bears the text
  that selects it again.
-/

namespace ScriptScope

/-- Two stubs of one value, under any names and handles. -/
structure Stub.Agrees (a b : Stub) : Prop where
  typeLabel : a.typeLabel = b.typeLabel
  value : a.value = b.value
  indexedCount : a.indexedCount = b.indexedCount
  namedCount : a.namedCount = b.namedCount
  evaluatePath : a.evaluatePath = b.evaluatePath
  isLeaf : a.isLeaf = b.isLeaf

/-- The elements of an array, a struct or a stack. -/
def Subject.elements? (heap : Heap) : Subject → Option (List Item)
  | .sequence elements _ => some (elements.items heap)
  | .bytes _ _ | .map _ | .mapEntry _ _ | .frame _ _ | .storage _ | .storageEntry _ => none

namespace Child

def elements? (heap : Heap) (child : Child) : Option (List Item) :=
  child.container?.bind fun c => c.subject.elements? heap

theorem elements?_ofItem (heap : Heap) (name : String) (p : Option String) (item : Item) :
    (ofItem heap name p item).elements? heap = item.elements?.map heap.items := by
  cases item <;> rfl

end Child

namespace Container

variable {memory : Memory} {presentation : Presentation} {elements : Elements} {isStruct : Bool}
  {name : String} {p : Option String}

theorem getElem?_children_sequence {i : Nat} {item : Item}
    (h : (elements.items memory.heap)[i]? = some item) :
    (children memory presentation ⟨.sequence elements isStruct, name, p⟩)[i]? =
      some (.ofItem memory.heap (toString i) (p.map (elementPath · i)) item) := by
  simp [children, h]

end Container

namespace Session

variable {memory : Memory} {s t : Session}

/-- The elements behind a handle, if it is one of an array, a struct or a stack. -/
def elementsAt? (s : Session) (memory : Memory) (handle : Int) : Option (List Item) :=
  (s.get? handle).bind fun c => c.subject.elements? memory.heap

theorem get?_zero (s : Session) : s.get? 0 = none := by
  rw [get?, if_neg (by omega)]

theorem get?_present (memory : Memory) (s : Session) (child : Child) :
    (s.present memory child).2.get? (s.present memory child).1.handle = child.container? := by
  cases child with
  | leaf name typeLabel value path => exact s.get?_zero
  | node c =>
    rw [present, get?_register, register_handle, if_pos rfl]
    rfl

theorem elementsAt?_present (memory : Memory) (s : Session) (child : Child) :
    (s.present memory child).2.elementsAt? memory (s.present memory child).1.handle =
      child.elements? memory.heap := by
  rw [elementsAt?, get?_present]
  rfl

theorem evaluatePath_present (memory : Memory) (s : Session) (child : Child) :
    (s.present memory child).1.evaluatePath = child.path? := by
  cases child <;> rfl

theorem later_refl (s : Session) : s.Later s :=
  ⟨rfl, Nat.le_refl _, fun _ hc => hc⟩

/-- What a container shows, once it has got a handle and while it has it. -/
theorem expand_of_later {now : Session} (c : Container)
    (hlater : (s.present memory (.node c)).2.Later now)
    (hlive : now.contains (s.present memory (.node c)).1.handle = true) :
    now.expand memory (s.present memory (.node c)).1.handle =
      .ok (now.presentAll memory (c.children memory s.presentation)) := by
  obtain ⟨other, hother⟩ := Option.isSome_iff_exists.1 hlive
  have hlt : (s.present memory (.node c)).1.handle <
      (s.present memory (.node c)).2.nextHandle := by
    simp only [present, register_handle, nextHandle_register]
    omega
  have hsame := hlater.get? hlt hother
  rw [get?_present] at hsame
  obtain rfl : c = other := Option.some.inj hsame
  have hpresentation : now.presentation = s.presentation := hlater.presentation
  rw [expand, hother, hpresentation]

theorem present_eq_of_presentation (h : t.presentation = s.presentation) (child : Child) :
    { (t.present memory child).1 with handle := (s.present memory child).1.handle } =
      (s.present memory child).1 := by
  cases child with
  | leaf name typeLabel value path => rfl
  | node c => simp only [present, register, Container.stub, h]

theorem agrees_present (h : t.presentation = s.presentation) (name : String) (child : Child) :
    (s.present memory child).1.Agrees (t.present memory (child.named name)).1 := by
  cases child with
  | leaf name typeLabel value path => exact ⟨rfl, rfl, rfl, rfl, rfl, rfl⟩
  | node c =>
    refine ⟨rfl, rfl, ?_, ?_, rfl, ?_⟩
    · simp only [present, Child.named, register, Container.stub, h]
    · simp only [present, Child.named, register, Container.stub, h]
    · rw [isLeaf_present, isLeaf_present]
      rfl

end Session

namespace Frame

/-- Selects and shows what a path leads to; a failure leaves the session as it is. -/
def evaluatePathIn (frame : Frame) (context : Context) (memory : Memory) (session : Session)
    (path : EvaluatePath) : Except EvalError (Stub × Session) :=
  (frame.evaluate context memory session.presentation path).map (session.present memory)

variable {frame : Frame} {context : Context} {memory : Memory} {presentation : Presentation}
  {s t : Session} {path further : EvaluatePath} {i : Nat}

theorem evaluateIn_of_parse {text : String} (h : EvaluatePath.parse text = .ok path) :
    frame.evaluateIn context memory s text = frame.evaluatePathIn context memory s path := by
  rw [evaluateIn, evaluateText, h]
  rfl

theorem evaluatePathIn_eq_error {e : EvalError} :
    frame.evaluatePathIn context memory s path = .error e ↔
      frame.evaluate context memory s.presentation path = .error e := by
  rw [evaluatePathIn]
  cases frame.evaluate context memory s.presentation path with
  | error e' => simp [Except.map]
  | ok child => simp [Except.map]

/-! ## One index further -/

theorem map_select_concat_of_error {heap : Heap} {root : Item} {indices : List Nat}
    {e : EvalError} {shown shown' : Item → Child}
    (h : (select heap root indices).map shown = .error e) :
    (select heap root (indices ++ [i])).map shown' = .error e := by
  rw [select_concat]
  cases hselect : select heap root indices with
  | error fault =>
    rw [hselect] at h
    cases h
    rfl
  | ok item =>
    rw [hselect] at h
    cases h

theorem evaluate_index?_of_error {e : EvalError}
    (h : frame.evaluate context memory presentation path = .error e)
    (hfurther : path.index? i = some further) :
    frame.evaluate context memory presentation further = .error e := by
  cases path with
  | stack name indices =>
    cases hfurther
    simp only [evaluate] at h ⊢
    cases hitems : stackItems? context name with
    | none =>
      rw [hitems] at h
      exact h
    | some items =>
      rw [hitems] at h
      cases indices with
      | nil => cases h
      | cons first rest =>
        simp only [List.cons_append] at h ⊢
        cases hroot : items[first]? with
        | none =>
          rw [hroot] at h
          exact h
        | some root =>
          rw [hroot] at h
          exact map_select_concat_of_error h
  | slot name indices =>
    cases hfurther
    simp only [evaluate] at h ⊢
    cases hroot : frame.localNamed context memory.heap name with
    | none =>
      rw [hroot] at h
      exact h
    | some root =>
      rw [hroot] at h
      exact map_select_concat_of_error h
  | storageEntry keyHash => cases hfurther
  | storage keyHash half => cases hfurther

/-- The element at an index, as the path of the index shows it. -/
def elementResult (heap : Heap) (items : List Item) (i : Nat) (further : EvaluatePath) :
    Except EvalError Child :=
  match items[i]? with
  | none => .error (.indexOutOfRange i items.length)
  | some item => .ok (.ofItem heap further.text (some further.text) item)

/-- What an index leads to below an item, as the path of the index shows it. -/
def itemResult (heap : Heap) (item : Item) (i : Nat) (further : EvaluatePath) :
    Except EvalError Child :=
  (indexInto heap item i).map (.ofItem heap further.text (some further.text))

theorem itemResult_of_elements?_eq_some {heap : Heap} {item : Item} {r : ArrayRef}
    (h : item.elements? = some r) :
    itemResult heap item i further = elementResult heap (heap.items r) i further := by
  simp only [itemResult, indexInto, h, elementResult]
  cases (heap.items r)[i]? <;> rfl

theorem itemResult_of_elements?_eq_none {heap : Heap} {item : Item}
    (h : item.elements? = none) :
    itemResult heap item i further = .error (.notIndexable item.typeName) := by
  simp only [itemResult, indexInto, h]
  rfl

/-- Below what a path selects, an index leads to an element of a stack, or to what it leads to below
an item. -/
theorem Selects.evaluate_index? {child : Child}
    (h : frame.Selects context memory presentation path child)
    (hfurther : path.index? i = some further) :
    (∃ items, child.elements? memory.heap = some items ∧
      frame.evaluate context memory presentation further =
        elementResult memory.heap items i further) ∨
      ∃ item, child = .ofItem memory.heap path.text (some path.text) item ∧
        frame.evaluate context memory presentation further =
          itemResult memory.heap item i further := by
  cases h with
  | @stack name items hitems =>
    cases hfurther
    refine .inl ⟨items, rfl, ?_⟩
    simp only [evaluate, hitems, List.nil_append, elementResult]
    cases items[i]? <;> rfl
  | stackItem hitems hroot hselect =>
    cases hfurther
    refine .inr ⟨_, rfl, ?_⟩
    simp only [evaluate, hitems, List.cons_append, hroot, select_concat, hselect]
    rfl
  | slot hroot hselect =>
    cases hfurther
    refine .inr ⟨_, rfl, ?_⟩
    simp only [evaluate, hroot, select_concat, hselect]
    rfl
  | storageEntry hentry => cases hfurther
  | storage half hentry => cases hfurther

/-- A path that selects a sequence gives its elements paths of their own. -/
theorem Selects.eq_of_elements? {child : Child} {items : List Item}
    (h : frame.Selects context memory presentation path child)
    (hitems : child.elements? memory.heap = some items) :
    ∃ elements isStruct, elements.items memory.heap = items ∧
      child = .node ⟨.sequence elements isStruct, path.text, some path.text⟩ := by
  obtain ⟨hpath, hname⟩ := h.path?_eq
  cases child with
  | leaf name typeLabel value p => cases hitems
  | node c =>
    obtain ⟨subject, name, p⟩ := c
    cases subject with
    | sequence elements isStruct =>
      obtain rfl : p = some path.text := hpath
      obtain rfl : path.text = name := by
        cases hname
        rfl
      exact ⟨elements, isStruct, Option.some.inj hitems, rfl⟩
    | _ => cases hitems

theorem evaluate_index? {child : Child}
    (h : frame.evaluate context memory presentation path = .ok child)
    (hfurther : path.index? i = some further) :
    match child.elements? memory.heap with
    | some items =>
      frame.evaluate context memory presentation further =
        elementResult memory.heap items i further
    | none => ∃ item : Item, item.elements? = none ∧
      child = .ofItem memory.heap path.text (some path.text) item ∧
      frame.evaluate context memory presentation further =
        .error (.notIndexable item.typeName) := by
  rcases (selects_of_evaluate h).evaluate_index? hfurther with
    ⟨items, hitems, hresult⟩ | ⟨item, rfl, hresult⟩
  · rw [hitems]
    exact hresult
  · rw [Child.elements?_ofItem]
    cases helements : item.elements? with
    | none =>
      refine ⟨item, helements, rfl, ?_⟩
      rw [hresult, itemResult_of_elements?_eq_none helements]
    | some r =>
      show _ = elementResult memory.heap (memory.heap.items r) i further
      rw [hresult, itemResult_of_elements?_eq_some helements]

/-! ## Expanding and evaluating -/

/-- Whether a path selects what a stub shows, in any session that presents as this one. -/
def Reselects (frame : Frame) (context : Context) (memory : Memory) (s : Session)
    (path : EvaluatePath) (stub : Stub) : Prop :=
  ∀ t : Session, t.presentation = s.presentation → ∃ again later,
    frame.evaluatePathIn context memory t path = .ok (again, later) ∧ stub.Agrees again

/-- What lies below a stub that a path selected: expanded while its handle is live, and by the
longer paths in any session that presents as the one before. -/
structure Indexes (frame : Frame) (context : Context) (memory : Memory) (s : Session)
    (path : EvaluatePath) (stub : Stub) (after : Session) : Prop where
  text : stub.evaluatePath = some path.text
  elements : ∀ items now, after.elementsAt? memory stub.handle = some items →
    after.Later now → now.contains stub.handle = true →
    ∃ stubs later, now.expand memory stub.handle = .ok (stubs, later) ∧
      stubs.length = items.length ∧
      ∀ i further child, path.index? i = some further → stubs[i]? = some child →
        frame.Reselects context memory s further child
  beyond : ∀ items i further, after.elementsAt? memory stub.handle = some items →
    path.index? i = some further → items.length ≤ i →
    ∀ t : Session, t.presentation = s.presentation →
      frame.evaluatePathIn context memory t further = .error (.indexOutOfRange i items.length)
  other : ∀ i further, after.elementsAt? memory stub.handle = none →
    path.index? i = some further →
    ∃ item : Item, (stub, after) = s.presentItem memory path.text (some path.text) item ∧
      ∀ t : Session, t.presentation = s.presentation →
        frame.evaluatePathIn context memory t further = .error (.notIndexable item.typeName)
  halves : ∀ keyHash now, path = .storageEntry keyHash →
    after.Later now → now.contains stub.handle = true →
    ∃ key value constant later,
      now.expand memory stub.handle = .ok ([key, value, constant], later) ∧
      frame.Reselects context memory s (.storage keyHash .key) key ∧
      frame.Reselects context memory s (.storage keyHash .value) value
  again : ∀ input, EvaluatePath.parse input = .ok path →
    ∀ t : Session, t.presentation = s.presentation → ∃ again later,
      frame.evaluateIn context memory t path.text = .ok (again, later) ∧
      { again with handle := stub.handle } = stub

theorem evaluatePathIn_of_evaluate {child : Child}
    (h : frame.evaluate context memory s.presentation path = .ok child)
    (ht : t.presentation = s.presentation) :
    frame.evaluatePathIn context memory t path = .ok (t.present memory child) := by
  rw [evaluatePathIn, ht, h]
  rfl

theorem reselects_of_evaluate {before : Session} {child : Child} {name : String}
    (h : frame.evaluate context memory s.presentation path = .ok (child.named name))
    (hbefore : before.presentation = s.presentation) :
    frame.Reselects context memory s path (before.present memory child).1 := by
  intro t ht
  refine ⟨_, _, evaluatePathIn_of_evaluate h ht, ?_⟩
  exact Session.agrees_present (ht.trans hbefore.symm) name child

theorem reselects_of_getElem? {before : Session} {children : List Child} {child : Child}
    {name : String} {stub : Stub}
    (h : frame.evaluate context memory s.presentation path = .ok (child.named name))
    (hchild : children[i]? = some child)
    (hstub : (before.presentAll memory children).1[i]? = some stub)
    (hbefore : before.presentation = s.presentation) :
    frame.Reselects context memory s path stub := by
  rw [Session.getElem?_presentAll, hchild, Option.map_some] at hstub
  obtain rfl := Option.some.inj hstub
  apply reselects_of_evaluate h
  rw [Session.presentation_presentAll, hbefore]

variable {child : Child} {now : Session}

theorem expand_elements {items : List Item}
    (h : frame.evaluate context memory s.presentation path = .ok child)
    (hitems : child.elements? memory.heap = some items)
    (hlater : (s.present memory child).2.Later now)
    (hlive : now.contains (s.present memory child).1.handle = true) :
    ∃ stubs later, now.expand memory (s.present memory child).1.handle = .ok (stubs, later) ∧
      stubs.length = items.length ∧
      ∀ i further stub, path.index? i = some further → stubs[i]? = some stub →
        frame.Reselects context memory s further stub := by
  have hnow : now.presentation = s.presentation := by
    rw [hlater.presentation, Session.presentation_present]
  obtain ⟨elements, isStruct, rfl, rfl⟩ := (selects_of_evaluate h).eq_of_elements? hitems
  refine ⟨_, _, Session.expand_of_later _ hlater hlive, ?_, ?_⟩
  · rw [Session.length_presentAll, Container.length_children_sequence rfl]
  · intro i further stub hfurther hstub
    have hlt : i < (elements.items memory.heap).length := by
      have := (List.getElem?_eq_some_iff.1 hstub).1
      rwa [Session.length_presentAll, Container.length_children_sequence rfl] at this
    have hitem : (elements.items memory.heap)[i]? = some (elements.items memory.heap)[i] :=
      List.getElem?_eq_getElem hlt
    have hresult := evaluate_index? h hfurther
    rw [hitems] at hresult
    simp only [elementResult, hitem] at hresult
    have helement : frame.evaluate context memory s.presentation further =
        .ok ((Child.ofItem memory.heap (toString i) (some (Container.elementPath path.text i))
          (elements.items memory.heap)[i]).named further.text) := by
      rw [Child.named_ofItem, hresult, EvaluatePath.text_index? hfurther]
    exact reselects_of_getElem? helement (Container.getElem?_children_sequence hitem) hstub hnow

/-- The path of one half of a storage entry selects what expanding the entry shows of it. -/
theorem evaluate_half {keyHash : UInt32} {entry : StorageEntry}
    (h : frame.storageEntry context memory keyHash = .ok entry) (half : StorageField) :
    frame.evaluate context memory presentation (.storage keyHash half) =
      .ok ((Container.halfChild presentation (some (EvaluatePath.storageEntry keyHash).text) half
        (match half with | .key => entry.key | .value => entry.value)).named
          (EvaluatePath.storage keyHash half).text) := by
  rw [evaluate_of_selects (.storage half h), Container.halfChild, Option.map_some,
    ← EvaluatePath.text_storage]
  rfl

theorem expand_halves {keyHash : UInt32}
    (h : frame.evaluate context memory s.presentation (.storageEntry keyHash) = .ok child)
    (hlater : (s.present memory child).2.Later now)
    (hlive : now.contains (s.present memory child).1.handle = true) :
    ∃ key value constant later,
      now.expand memory (s.present memory child).1.handle =
        .ok ([key, value, constant], later) ∧
      frame.Reselects context memory s (.storage keyHash .key) key ∧
      frame.Reselects context memory s (.storage keyHash .value) value := by
  have hnow : now.presentation = s.presentation := by
    rw [hlater.presentation, Session.presentation_present]
  cases selects_of_evaluate h with
  | storageEntry hentry =>
    refine ⟨_, _, _, _, Session.expand_of_later _ hlater hlive, ?_, ?_⟩
    · exact reselects_of_evaluate (evaluate_half hentry .key) hnow
    · exact reselects_of_evaluate (evaluate_half hentry .value) hnow

theorem evaluateIn_text {input : String} (hparse : EvaluatePath.parse input = .ok path)
    (h : frame.evaluate context memory s.presentation path = .ok child)
    (ht : t.presentation = s.presentation) :
    ∃ again later, frame.evaluateIn context memory t path.text = .ok (again, later) ∧
      { again with handle := (s.present memory child).1.handle } = (s.present memory child).1 := by
  have hagain : EvaluatePath.parse path.text = .ok path :=
    EvaluatePath.parse_text (EvaluatePath.canonical_of_parse hparse)
  have hresult := evaluatePathIn_of_evaluate h ht
  rw [← evaluateIn_of_parse hagain] at hresult
  exact ⟨_, _, hresult, Session.present_eq_of_presentation ht child⟩

theorem indexes_of_evaluate
    (h : frame.evaluate context memory s.presentation path = .ok child) :
    frame.Indexes context memory s path (s.present memory child).1 (s.present memory child).2 where
  text := by
    rw [Session.evaluatePath_present]
    exact (selects_of_evaluate h).path?_eq.1
  elements items now hitems hlater hlive := by
    rw [Session.elementsAt?_present] at hitems
    exact expand_elements h hitems hlater hlive
  beyond items i further hitems hfurther hle t ht := by
    rw [Session.elementsAt?_present] at hitems
    have hresult := evaluate_index? h hfurther
    rw [hitems] at hresult
    rw [evaluatePathIn_eq_error, ht, hresult, elementResult, List.getElem?_eq_none hle]
  other i further hnone hfurther := by
    rw [Session.elementsAt?_present] at hnone
    have hresult := evaluate_index? h hfurther
    rw [hnone] at hresult
    obtain ⟨item, -, rfl, hfault⟩ := hresult
    refine ⟨item, rfl, ?_⟩
    intro t ht
    rw [evaluatePathIn_eq_error, ht, hfault]
  halves keyHash now hpath hlater hlive := by
    subst hpath
    exact expand_halves h hlater hlive
  again input hparse t ht := evaluateIn_text hparse h ht

theorem evaluatePathIn_index (frame : Frame) (context : Context) (memory : Memory) (s : Session)
    (path : EvaluatePath) :
    match frame.evaluatePathIn context memory s path with
    | .error e => ∀ i further, path.index? i = some further →
      ∀ t : Session, t.presentation = s.presentation →
        frame.evaluatePathIn context memory t further = .error e
    | .ok (stub, after) => frame.Indexes context memory s path stub after := by
  cases heval : frame.evaluate context memory s.presentation path with
  | error e =>
    rw [evaluatePathIn_eq_error.2 heval]
    intro i further hfurther t ht
    rw [evaluatePathIn_eq_error, ht, evaluate_index?_of_error heval hfurther]
  | ok child =>
    rw [evaluatePathIn_of_evaluate heval rfl]
    exact indexes_of_evaluate heval

/-- An array that holds itself as its second element, that element, and one index beyond it. -/
theorem evaluatePathIn_index_cyclic :
    let memory : Memory := ⟨⟨#[[.integer 7, .array ⟨0⟩]], #[]⟩, fun _ => []⟩
    let context : Context := ⟨.zero, 0, [], [.array ⟨0⟩], []⟩
    let frame : Frame := ⟨none, none, true, true⟩
    let s := Session.start {}
    let stub : Stub :=
      ⟨"$evalStack[0]", "Array[2]", "Array[2]", 1, some 2, none, some "$evalStack[0]"⟩
    let seven : Stub := ⟨"0", "Integer", "7", 0, none, none, some "$evalStack[0][0]"⟩
    let again : Stub := ⟨"1", "Array[2]", "Array[2]", 2, some 2, none, some "$evalStack[0][1]"⟩
    ∃ after later,
      frame.evaluatePathIn context memory s (.stack "evalStack" [0]) = .ok (stub, after) ∧
      after.expand memory 1 = .ok ([seven, again], later) ∧
      frame.Reselects context memory s (.stack "evalStack" [0, 1]) again ∧
      frame.evaluatePathIn context memory later (.stack "evalStack" [0, 2]) =
        .error (.indexOutOfRange 2 2) := by
  intro memory context frame s stub seven again
  let self : Container :=
    ⟨.sequence (.shared ⟨0⟩) false, "$evalStack[0]", some "$evalStack[0]"⟩
  let after := (s.register memory self).2
  let later := (after.presentAll memory (self.children memory after.presentation)).2
  have hresult : frame.evaluatePathIn context memory s (.stack "evalStack" [0]) =
      .ok (stub, after) := by
    have hstub : (s.register memory self).1 = stub := by decide +kernel
    rw [← hstub]
    rfl
  have hexpand : after.expand memory 1 = .ok ([seven, again], later) := by
    have hlive : after.contains 1 = true := rfl
    refine (Session.expand_of_later self after.later_refl hlive).trans ?_
    refine congrArg Except.ok (Prod.ext ?_ rfl)
    decide +kernel
  have hindexes : frame.Indexes context memory s (.stack "evalStack" [0]) stub after := by
    have h := evaluatePathIn_index frame context memory s (.stack "evalStack" [0])
    rw [hresult] at h
    exact h
  obtain ⟨stubs, other, hstubs, -, hchild⟩ :=
    hindexes.elements _ after rfl after.later_refl rfl
  obtain ⟨rfl, rfl⟩ := Prod.mk.inj (Except.ok.inj (hexpand.symm.trans hstubs))
  refine ⟨after, later, hresult, hexpand, hchild 1 _ again rfl rfl, ?_⟩
  exact hindexes.beyond _ 2 _ rfl rfl (by decide) later rfl

end Frame
end ScriptScope

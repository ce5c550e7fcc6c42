import ScriptScope.Proofs.Frame.Locals

/-!
# ScriptScope.Proofs.Frame.Walking

Why a path leads nowhere, step by step.

The head of a path names a root: a whole stack, or the local in the first slot of a name. From there
each index steps down into the elements of the value reached so far. The first step that fails
decides what is reported, and nothing behind it is looked at.

* `unbound_or_binds`: a name stands for a local, or for one of four reasons it does not.
* `lands_or_fails`: every step lands, or one of them is the first that does not.
* `walks_of`: so a lookup is known from what it gives where all steps land and where one fails.
* `evaluatePathIn_walks`: all of it for the paths of stacks and of slots.
-/

namespace ScriptScope

/-- What a path has reached: a whole stack, its top first, or an item. -/
inductive Station where
  | stack (items : List Item)
  | item (item : Item)

namespace Station

/-- The elements of a stack, an array or a struct. -/
def elements? (heap : Heap) : Station → Option (List Item)
  | .stack items => some items
  | .item (.array r) | .item (.struct r) => some (heap.items r)
  | .item _ => none

/-- Indices lead from a station to another: each is that of an element, the next goes on there. -/
inductive Leads (heap : Heap) : Station → List Nat → Station → Prop where
  | here (s : Station) : Leads heap s [] s
  | down {s last : Station} {items : List Item} {i : Nat} {item : Item} {rest : List Nat}
    (helements : s.elements? heap = some items) (hitem : items[i]? = some item)
    (hrest : Leads heap (.item item) rest last) : Leads heap s (i :: rest) last

/-- Why an index leads no further from a station. -/
inductive Refuses (heap : Heap) (i : Nat) : Station → EvalError → Prop where
  | notIndexable {item : Item} (h : (Station.item item).elements? heap = none) :
    Refuses heap i (.item item) (.notIndexable item.typeName)
  | outOfRange {s : Station} {items : List Item} (h : s.elements? heap = some items)
    (hle : items.length ≤ i) : Refuses heap i s (.indexOutOfRange i items.length)

/-- The step with a number is reached, and lands at an element. -/
def Lands (heap : Heap) (root : Station) (indices : List Nat) (j : Nat) : Prop :=
  ∃ s items i, Leads heap root (indices.take j) s ∧ s.elements? heap = some items ∧
    indices[j]? = some i ∧ i < items.length

/-- The step with a number is reached, and fails for a reason. -/
def Fails (heap : Heap) (root : Station) (indices : List Nat) (j : Nat) (e : EvalError) : Prop :=
  ∃ s i, Leads heap root (indices.take j) s ∧ indices[j]? = some i ∧ Refuses heap i s e

variable {heap : Heap} {root : Station} {indices rest : List Nat} {i j : Nat} {items : List Item}
  {item : Item} {e : EvalError}

/-! ## Steps -/

theorem leads_cons_iff {last : Station} (helements : root.elements? heap = some items)
    (hitem : items[i]? = some item) :
    Leads heap root (i :: rest) last ↔ Leads heap (.item item) rest last := by
  constructor
  · intro h
    cases h with
    | down helements' hitem' hrest =>
      rw [helements] at helements'
      cases helements'
      rw [hitem] at hitem'
      cases hitem'
      exact hrest
  · exact .down helements hitem

theorem lands_zero (helements : root.elements? heap = some items) (hitem : items[i]? = some item) :
    Lands heap root (i :: rest) 0 :=
  ⟨root, items, i, .here root, helements, rfl, (List.getElem?_eq_some_iff.1 hitem).1⟩

theorem lands_succ_iff (helements : root.elements? heap = some items)
    (hitem : items[i]? = some item) :
    Lands heap root (i :: rest) (j + 1) ↔ Lands heap (.item item) rest j := by
  simp only [Lands, List.take_succ_cons, leads_cons_iff helements hitem, List.getElem?_cons_succ]

theorem fails_zero (h : Refuses heap i root e) : Fails heap root (i :: rest) 0 e :=
  ⟨root, i, .here root, rfl, h⟩

theorem fails_succ_iff (helements : root.elements? heap = some items)
    (hitem : items[i]? = some item) :
    Fails heap root (i :: rest) (j + 1) e ↔ Fails heap (.item item) rest j e := by
  simp only [Fails, List.take_succ_cons, leads_cons_iff helements hitem, List.getElem?_cons_succ]

theorem lands_cons (h : ∀ j < (i :: rest).length, Lands heap root (i :: rest) j) :
    ∃ items item, root.elements? heap = some items ∧ items[i]? = some item ∧
      ∀ j < rest.length, Lands heap (.item item) rest j := by
  obtain ⟨s, items, k, hleads, helements, hk, hlt⟩ := h 0 (Nat.zero_lt_succ _)
  cases hleads
  cases hk
  have hitem : items[i]? = some items[i] := List.getElem?_eq_getElem hlt
  refine ⟨items, items[i], helements, hitem, ?_⟩
  intro j hj
  exact (lands_succ_iff helements hitem).1 (h (j + 1) (Nat.succ_lt_succ hj))

theorem Fails.cons (h : Fails heap root (i :: rest) j e) :
    Refuses heap i root e ∨ ∃ items item k, root.elements? heap = some items ∧
      items[i]? = some item ∧ Fails heap (.item item) rest k e := by
  cases j with
  | zero =>
    obtain ⟨s, k, hleads, hk, hrefuses⟩ := h
    cases hleads
    cases hk
    exact .inl hrefuses
  | succ j =>
    obtain ⟨items, item, helements, hitem⟩ : ∃ items item,
        root.elements? heap = some items ∧ items[i]? = some item := by
      obtain ⟨s, k, hleads, -⟩ := h
      cases hleads with
      | down helements hitem hrest => exact ⟨_, _, helements, hitem⟩
    exact .inr ⟨items, item, j, helements, hitem, (fails_succ_iff helements hitem).1 h⟩

theorem not_fails_nil : ¬ Fails heap root [] j e := by
  rintro ⟨s, i, -, hi, -⟩
  cases hi

/-- An index leads to an element, or is refused. -/
theorem element_or_refuses (heap : Heap) (s : Station) (i : Nat) :
    (∃ items item, s.elements? heap = some items ∧ items[i]? = some item) ∨
      ∃ e, Refuses heap i s e := by
  cases helements : s.elements? heap with
  | none =>
    cases s with
    | stack items => cases helements
    | item item => exact .inr ⟨_, .notIndexable helements⟩
  | some items =>
    cases hitem : items[i]? with
    | none => exact .inr ⟨_, .outOfRange helements (List.getElem?_eq_none_iff.1 hitem)⟩
    | some item => exact .inl ⟨items, item, rfl, hitem⟩

/-- Every step lands, or one of them is the first that does not. -/
theorem lands_or_fails (heap : Heap) (root : Station) (indices : List Nat) :
    (∀ j < indices.length, Lands heap root indices j) ∨
      ∃ j e, (∀ k < j, Lands heap root indices k) ∧ Fails heap root indices j e := by
  induction indices generalizing root with
  | nil => exact .inl fun j hj => absurd hj (Nat.not_lt_zero j)
  | cons i rest ih =>
    rcases element_or_refuses heap root i with ⟨items, item, helements, hitem⟩ | ⟨e, hrefuses⟩
    · have hsteps : ∀ n, (∀ j < n, Lands heap (.item item) rest j) →
          ∀ j < n + 1, Lands heap root (i :: rest) j := by
        intro n h j hj
        cases j with
        | zero => exact lands_zero helements hitem
        | succ j => exact (lands_succ_iff helements hitem).2 (h j (Nat.lt_of_succ_lt_succ hj))
      rcases ih (.item item) with hlands | ⟨j, e, hlands, hfails⟩
      · exact .inl (hsteps rest.length hlands)
      · exact .inr ⟨j + 1, e, hsteps j hlands, (fails_succ_iff helements hitem).2 hfails⟩
    · exact .inr ⟨0, e, fun k hk => absurd hk (Nat.not_lt_zero k), fails_zero hrefuses⟩

/-- A step that fails is the same one whatever stands behind it. -/
theorem Fails.later (h : Fails heap root indices j e) (later : List Nat) :
    Fails heap root (indices.take (j + 1) ++ later) j e := by
  obtain ⟨s, i, hleads, hi, hrefuses⟩ := h
  have hlt : j < indices.length := (List.getElem?_eq_some_iff.1 hi).1
  have hlength : j < (indices.take (j + 1)).length := by
    rw [List.length_take]
    omega
  refine ⟨s, i, ?_, ?_, hrefuses⟩
  · rwa [List.take_append_of_le_length (Nat.le_of_lt hlength), List.take_take,
      Nat.min_eq_left (Nat.le_succ j)]
  · rwa [List.getElem?_append_left hlength, List.getElem?_take_of_lt (Nat.lt_succ_self j)]

/-! ## Items -/

theorem elements?_item (heap : Heap) (item : Item) :
    (Station.item item).elements? heap = item.elements?.map heap.items := by
  cases item <;> rfl

theorem select_cons_of_element {found : Item}
    (helements : (Station.item item).elements? heap = some items)
    (hfound : items[i]? = some found) (rest : List Nat) :
    select heap item (i :: rest) = select heap found rest := by
  rw [elements?_item, Option.map_eq_some_iff] at helements
  obtain ⟨r, hr, rfl⟩ := helements
  exact select_cons_of_getElem? hr hfound rest

theorem indexInto_of_refuses (h : Refuses heap i (.item item) e) :
    indexInto heap item i = .error e := by
  cases h with
  | notIndexable h =>
    rw [elements?_item, Option.map_eq_none_iff] at h
    rw [indexInto, h]
  | outOfRange h hle =>
    rw [elements?_item, Option.map_eq_some_iff] at h
    obtain ⟨r, hr, rfl⟩ := h
    rw [indexInto, hr]
    simp only [List.getElem?_eq_none hle]

theorem select_of_lands (h : ∀ j < indices.length, Lands heap (.item item) indices j) :
    ∃ found, select heap item indices = .ok found := by
  induction indices generalizing item with
  | nil => exact ⟨item, rfl⟩
  | cons i rest ih =>
    obtain ⟨items, found, helements, hfound, hrest⟩ := lands_cons h
    rw [select_cons_of_element helements hfound]
    exact ih hrest

theorem select_of_fails (h : Fails heap (.item item) indices j e) :
    select heap item indices = .error e := by
  induction indices generalizing item j with
  | nil => exact absurd h not_fails_nil
  | cons i rest ih =>
    rcases h.cons with hrefuses | ⟨items, found, k, helements, hfound, hrest⟩
    · rw [select, List.foldlM_cons, indexInto_of_refuses hrefuses]
      rfl
    · rw [select_cons_of_element helements hfound]
      exact ih hrest

end Station

/-! ## Lookups -/

/-- What a lookup gives for every row of indices behind one head. -/
structure Walks (heap : Heap) (root : Station) (lookup : List Nat → Except EvalError α) :
    Prop where
  ok : ∀ indices, (∃ found, lookup indices = .ok found) ↔
    ∀ j < indices.length, root.Lands heap indices j
  error : ∀ indices e, lookup indices = .error e ↔
    ∃ j, (∀ k < j, root.Lands heap indices k) ∧ root.Fails heap indices j e
  later : ∀ indices j e, root.Fails heap indices j e →
    ∀ later, lookup (indices.take (j + 1) ++ later) = .error e

/-- A lookup is known from what it gives where all steps land and where one fails. -/
theorem walks_of {heap : Heap} {root : Station} {lookup : List Nat → Except EvalError α}
    (hok : ∀ indices, (∀ j < indices.length, root.Lands heap indices j) →
      ∃ found, lookup indices = .ok found)
    (herror : ∀ indices j e, root.Fails heap indices j e → lookup indices = .error e) :
    Walks heap root lookup where
  ok indices := by
    refine ⟨?_, hok indices⟩
    rintro ⟨found, hfound⟩
    rcases Station.lands_or_fails heap root indices with hlands | ⟨j, e, -, hfails⟩
    · exact hlands
    · rw [herror indices j e hfails] at hfound
      cases hfound
  error indices e := by
    constructor
    · intro he
      rcases Station.lands_or_fails heap root indices with hlands | ⟨j, e', hlands, hfails⟩
      · obtain ⟨found, hfound⟩ := hok indices hlands
        rw [hfound] at he
        cases he
      · rw [herror indices j e' hfails] at he
        cases he
        exact ⟨j, hlands, hfails⟩
    · rintro ⟨j, -, hfails⟩
      exact herror indices j e hfails
  later indices j e hfails later := herror _ j e (hfails.later later)

theorem Walks.refused {heap : Heap} {root : Station} {lookup : List Nat → Except EvalError α}
    (h : Walks heap root lookup) {indices : List Nat} {e : EvalError}
    (he : lookup indices = .error e) : ∃ i s, Station.Refuses heap i s e := by
  obtain ⟨j, -, s, i, -, -, hrefuses⟩ := (h.error indices e).1 he
  exact ⟨i, s, hrefuses⟩

/-! ## Names -/

theorem Item.elements?_eq_some_iff {item : Item} {r : ArrayRef} :
    item.elements? = some r ↔ item = .array r ∨ item = .struct r := by
  cases item <;> simp [Item.elements?]

namespace Frame

/-- Why a name stands for no local: no method is known, no slot of it has the name, there are no
locals at the top of the alt stack, or the first slot of the name lies beyond them. -/
inductive Unbound (frame : Frame) (context : Context) (heap : Heap) (name : String) : Prop where
  | noMethod (hmethod : frame.method = none)
  | undeclared {m : Method} (hmethod : frame.method = some m)
    (hnone : ∀ d ∈ m.parameters ++ m.variables, d.name ≠ name)
  | noLocals (htop : ∀ (top : Item) (r : ArrayRef), context.altStack.getLast? = some top →
      top ≠ .array r ∧ top ≠ .struct r)
  | beyond {m : Method} {i : Nat} {top : Item} {r : ArrayRef} (hmethod : frame.method = some m)
    (hslot : m.FirstSlot name i) (htop : context.altStack.getLast? = some top)
    (hsequence : top = .array r ∨ top = .struct r) (hle : (heap.items r).length ≤ i)

/-- The local that a name stands for: the element with the number of its first slot. -/
inductive Binds (frame : Frame) (context : Context) (heap : Heap) (name : String) :
    Item → Prop where
  | intro {m : Method} {i : Nat} {top item : Item} {r : ArrayRef}
    (hmethod : frame.method = some m) (hslot : m.FirstSlot name i)
    (htop : context.altStack.getLast? = some top) (hsequence : top = .array r ∨ top = .struct r)
    (hitem : (heap.items r)[i]? = some item) : Binds frame context heap name item

variable {frame : Frame} {context : Context} {memory : Memory} {s : Session} {heap : Heap}
  {name : String} {item : Item}

theorem firstSlot_or_forall_ne (m : Method) (name : String) :
    (∃ i, m.FirstSlot name i) ∨ ∀ d ∈ m.parameters ++ m.variables, d.name ≠ name := by
  cases hfind : (m.parameters ++ m.variables).find? fun d => d.name = name with
  | none =>
    refine .inr fun d hd => ?_
    simpa using List.find?_eq_none.1 hfind d hd
  | some d =>
    obtain ⟨hd, before, after, hslots, hbefore⟩ := List.find?_eq_some_iff_append.1 hfind
    obtain rfl : d.name = name := of_decide_eq_true hd
    refine .inl ⟨before.length, .intro hslots ?_⟩
    intro e he
    simpa using hbefore e he

/-- A name stands for a local, or for one of four reasons it does not. -/
theorem unbound_or_binds (frame : Frame) (context : Context) (heap : Heap) (name : String) :
    frame.Unbound context heap name ∨
      ∃ item, frame.Binds context heap name item := by
  cases hmethod : frame.method with
  | none => exact .inl (.noMethod hmethod)
  | some m =>
    rcases firstSlot_or_forall_ne m name with ⟨i, hslot⟩ | hnone
    · by_cases hlocals : ∃ (top : Item) (r : ArrayRef), context.altStack.getLast? = some top ∧
          (top = .array r ∨ top = .struct r)
      · obtain ⟨top, r, htop, hsequence⟩ := hlocals
        cases hitem : (heap.items r)[i]? with
        | none =>
          exact .inl (.beyond hmethod hslot htop hsequence (List.getElem?_eq_none_iff.1 hitem))
        | some item => exact .inr ⟨item, .intro hmethod hslot htop hsequence hitem⟩
      · refine .inl (.noLocals fun top r htop => not_or.1 fun hsequence => ?_)
        exact hlocals ⟨top, r, htop, hsequence⟩
    · exact .inl (.undeclared hmethod hnone)

theorem localNamed_of_binds (h : frame.Binds context memory.heap name item) :
    frame.localNamed context memory.heap name = some item := by
  cases h with
  | intro hmethod hslot htop hsequence hitem =>
    rw [localNamed_of_firstSlot hmethod hslot htop (Item.elements?_eq_some_iff.2 hsequence), hitem]

theorem localNamed_of_unbound (h : frame.Unbound context memory.heap name) :
    frame.localNamed context memory.heap name = none := by
  cases h with
  | noMethod hmethod =>
    rw [localNamed, slots, hmethod]
    rfl
  | @undeclared m hmethod hnone =>
    have hslots : frame.slots = m.parameters ++ m.variables := by
      rw [slots, hmethod]
      rfl
    have hposition : frame.slots.findIdx? (fun d => d.name = name) = none := by
      rw [hslots, List.findIdx?_eq_none_iff]
      intro d hd
      exact decide_eq_false (hnone d hd)
    rw [localNamed, hposition]
    rfl
  | noLocals htop =>
    have hlocals : locals context = none := by
      rw [locals, Option.bind_eq_none_iff]
      intro top htop'
      refine Option.eq_none_iff_forall_ne_some.2 fun r hr => ?_
      exact (Item.elements?_eq_some_iff.1 hr).elim (htop top r htop').1 (htop top r htop').2
    rw [localNamed, hlocals]
    cases frame.slots.findIdx? (fun d => d.name = name) <;> rfl
  | beyond hmethod hslot htop hsequence hle =>
    rw [localNamed_of_firstSlot hmethod hslot htop (Item.elements?_eq_some_iff.2 hsequence),
      List.getElem?_eq_none hle]

theorem unknownVariable_of_unbound (h : frame.Unbound context memory.heap name)
    (indices : List Nat) : frame.evaluatePathIn context memory s (.slot name indices) =
      .error (.unknownVariable name) := by
  rw [evaluatePathIn_eq_error]
  simp only [evaluate, localNamed_of_unbound h]

/-! ## Paths -/

theorem walks_stack {stack : List Item} (hmem : (name, stack) ∈ context.stacks) :
    Walks memory.heap (.stack stack.reverse)
      fun indices => frame.evaluatePathIn context memory s (.stack name indices) := by
  apply walks_of
  · intro indices hlands
    cases indices with
    | nil =>
      simp only [evaluatePathIn, evaluate, stackItems?_of_mem_stacks hmem]
      exact ⟨_, rfl⟩
    | cons i rest =>
      obtain ⟨items, item, helements, hitem, hrest⟩ := Station.lands_cons hlands
      cases helements
      obtain ⟨found, hfound⟩ := Station.select_of_lands hrest
      rw [evaluatePathIn, evaluate_stack_of_getElem? hmem hitem, hfound]
      exact ⟨_, rfl⟩
  · intro indices j e hfails
    rw [evaluatePathIn_eq_error]
    cases indices with
    | nil => exact absurd hfails Station.not_fails_nil
    | cons i rest =>
      rcases hfails.cons with hrefuses | ⟨items, item, k, helements, hitem, hrest⟩
      · cases hrefuses with
        | outOfRange helements hle =>
          cases helements
          rw [List.length_reverse] at hle ⊢
          exact evaluate_stack_of_le hmem hle rest
      · cases helements
        rw [evaluate_stack_of_getElem? hmem hitem, Station.select_of_fails hrest]
        rfl

theorem walks_slot (h : frame.Binds context memory.heap name item) :
    Walks memory.heap (.item item)
      fun indices => frame.evaluatePathIn context memory s (.slot name indices) := by
  apply walks_of
  · intro indices hlands
    obtain ⟨found, hfound⟩ := Station.select_of_lands hlands
    simp only [evaluatePathIn, evaluate, localNamed_of_binds h, hfound]
    exact ⟨_, rfl⟩
  · intro indices j e hfails
    rw [evaluatePathIn_eq_error]
    simp only [evaluate, localNamed_of_binds h, Station.select_of_fails hfails]
    rfl

theorem unknownStack_of_ne (heval : name ≠ evaluationStackName) (halt : name ≠ altStackName)
    (indices : List Nat) : frame.evaluatePathIn context memory s (.stack name indices) =
      .error (.unknownStack name) := by
  have hnone : stackItems? context name = none := by
    rw [stackItems?, if_neg heval, if_neg halt]
  rw [evaluatePathIn_eq_error]
  simp only [evaluate, hnone]

theorem evaluatePathIn_unknownStack_iff (indices : List Nat) :
    frame.evaluatePathIn context memory s (.stack name indices) = .error (.unknownStack name) ↔
      name ≠ evaluationStackName ∧ name ≠ altStackName := by
  refine ⟨fun h => ?_, fun h => unknownStack_of_ne h.1 h.2 indices⟩
  have hnot : ∀ stack, (name, stack) ∉ context.stacks := by
    intro stack hmem
    obtain ⟨i, station, hrefuses⟩ := (walks_stack hmem).refused h
    cases hrefuses
  constructor
  · rintro rfl
    exact hnot context.evaluationStack (List.mem_pair.2 (.inl rfl))
  · rintro rfl
    exact hnot context.altStack (List.mem_pair.2 (.inr rfl))

theorem evaluatePathIn_unknownVariable_iff (indices : List Nat) :
    frame.evaluatePathIn context memory s (.slot name indices) = .error (.unknownVariable name) ↔
      frame.Unbound context memory.heap name := by
  refine ⟨fun h => ?_, fun h => unknownVariable_of_unbound h indices⟩
  rcases frame.unbound_or_binds context memory.heap name with hunbound | ⟨item, hbinds⟩
  · exact hunbound
  · obtain ⟨i, station, hrefuses⟩ := (walks_slot hbinds).refused h
    cases hrefuses

theorem evaluatePathIn_walks (frame : Frame) (context : Context) (memory : Memory) (s : Session) :
    (∀ name indices,
      frame.evaluatePathIn context memory s (.stack name indices) = .error (.unknownStack name) ↔
        name ≠ "evalStack" ∧ name ≠ "altStack") ∧
    (∀ name stack, (name, stack) ∈ context.stacks → Walks memory.heap (.stack stack.reverse)
      fun indices => frame.evaluatePathIn context memory s (.stack name indices)) ∧
    (∀ name indices,
      frame.evaluatePathIn context memory s (.slot name indices) = .error (.unknownVariable name) ↔
        frame.Unbound context memory.heap name) ∧
    ∀ name, ¬ frame.Unbound context memory.heap name →
      ∃ item, frame.Binds context memory.heap name item ∧ Walks memory.heap (.item item)
        fun indices => frame.evaluatePathIn context memory s (.slot name indices) := by
  refine ⟨fun name indices => evaluatePathIn_unknownStack_iff indices,
    fun name stack hmem => walks_stack hmem,
    fun name indices => evaluatePathIn_unknownVariable_iff indices, ?_⟩
  intro name hbound
  obtain ⟨item, hbinds⟩ := (frame.unbound_or_binds context memory.heap name).resolve_left hbound
  exact ⟨item, hbinds, walks_slot hbinds⟩

/-- An array that holds itself: a path may go round in it, and then step into an integer or beyond
the elements. -/
theorem evaluatePathIn_walks_cyclic :
    let method : Method :=
      ⟨"", "", "", 0, 9, [⟨"x", ""⟩], [⟨"items", ""⟩, ⟨"far", ""⟩], none, [], .zero⟩
    let frame : Frame := ⟨none, some method, true, true⟩
    let memory : Memory := ⟨⟨#[[.integer 7, .array ⟨0⟩]], #[]⟩, fun _ => []⟩
    let context : Context := ⟨.zero, 0, [], [.boolean true, .array ⟨0⟩], [.array ⟨0⟩]⟩
    let s := Session.start {}
    (∀ later, frame.evaluatePathIn context memory s
      (.stack "evalStack" ([0, 1, 1, 0, 5] ++ later)) = .error (.notIndexable "Integer")) ∧
    (∀ later, frame.evaluatePathIn context memory s (.slot "items" ([1, 2] ++ later)) =
      .error (.indexOutOfRange 2 2)) ∧
    (∃ found, frame.evaluatePathIn context memory s (.slot "items" [1, 0]) = .ok found) ∧
    (∀ indices, frame.evaluatePathIn context memory s (.slot "far" indices) =
      .error (.unknownVariable "far")) ∧
    ∀ indices, frame.evaluatePathIn context memory s (.stack "items" indices) =
      .error (.unknownStack "items") := by
  intro method frame memory context s
  obtain ⟨hstack, hwalks, hslot, hlocal⟩ := evaluatePathIn_walks frame context memory s
  have hitems : frame.localNamed context memory.heap "items" = some (.array ⟨0⟩) := by rfl
  have hfar : method.FirstSlot "far" 2 := by
    refine @Method.FirstSlot.intro method [⟨"x", ""⟩, ⟨"items", ""⟩] _ ⟨"far", ""⟩ rfl ?_
    simp
  let self : Station := .item (.array ⟨0⟩)
  have hself : self.elements? memory.heap = some [.integer 7, .array ⟨0⟩] := rfl
  have hbound : ¬ frame.Unbound context memory.heap "items" := by
    intro h
    rw [localNamed_of_unbound h] at hitems
    cases hitems
  obtain ⟨item, hbinds, hpaths⟩ := hlocal "items" hbound
  rw [localNamed_of_binds hbinds] at hitems
  cases hitems
  refine ⟨?_, ?_, ?_, ?_, ?_⟩
  · refine (hwalks "evalStack" _ (List.mem_pair.2 (.inl rfl))).later [0, 1, 1, 0, 5] 4 _ ?_
    refine ⟨.item (.integer 7), 5, ?_, rfl, .notIndexable rfl⟩
    exact .down rfl rfl (.down hself rfl (.down hself rfl (.down hself rfl (.here _))))
  · refine hpaths.later [1, 2] 1 _ ?_
    exact ⟨self, 2, .down hself rfl (.here self), rfl, .outOfRange hself (by decide)⟩
  · refine (hpaths.ok [1, 0]).2 fun j hj => ?_
    match j, hj with
    | 0, _ => exact ⟨self, _, 1, .here self, hself, rfl, by decide⟩
    | 1, _ => exact ⟨self, _, 0, .down hself rfl (.here self), hself, rfl, by decide⟩
  · intro indices
    exact (hslot "far" indices).2 (.beyond rfl hfar rfl (.inl rfl) (by decide))
  · intro indices
    exact (hstack "items" indices).2 (by decide)

end Frame
end ScriptScope

import ScriptScope.Proofs.Frame.Indexing

/-!
# ScriptScope.Proofs.Frame.Locals

Two names of one local: the name that it is declared under, and its place at the top of the alt
stack.

Slots are counted through the parameters and then the variables; where a name is declared twice, the
first declaration has it. The elements of a slot are looked up in the item at the top of the alt
stack, while a path into a stack counts its items from the top down.

* `localNamed_of_firstSlot`: the local of a name is the element with the number of its first slot.
* `countsFromTop_of_mem_stacks`: which item of a stack an index selects.
* `evaluatePathIn_locals`: so a name and the place of its slot on the alt stack select the same.
-/

namespace ScriptScope

/-- The first declaration under a name and how many slots are before it: the slots are the
parameters, then the variables. -/
inductive Method.FirstSlot (m : Method) : String → Nat → Prop where
  | intro {before after : List Declaration} {d : Declaration}
    (hslots : m.parameters ++ m.variables = before ++ d :: after)
    (hfirst : ∀ e ∈ before, e.name ≠ d.name) : FirstSlot m d.name before.length

/-- The stub without the path that selects it. -/
def Stub.unaddressed (s : Stub) : Stub :=
  { s with evaluatePath := none }

/-- The stacks that have a name, their bottom first. -/
def Context.stacks (context : Context) : List (String × List Item) :=
  [(evaluationStackName, context.evaluationStack), (altStackName, context.altStack)]

theorem select_cons_of_getElem? {heap : Heap} {item found : Item} {r : ArrayRef} {i : Nat}
    (hr : item.elements? = some r) (hi : (heap.items r)[i]? = some found) (rest : List Nat) :
    select heap item (i :: rest) = select heap found rest := by
  have hstep : indexInto heap item i = .ok found := by
    rw [indexInto, hr]
    simp only [hi]
  rw [select, List.foldlM_cons, hstep]
  rfl

namespace Session

variable {memory : Memory} {s t : Session}

theorem unaddressed_presentItem (memory : Memory) (s : Session) (name : String)
    (path : Option String) (item : Item) :
    (s.presentItem memory name path item).1.unaddressed =
      (s.presentItem memory name none item).1 := by
  cases item <;> rfl

theorem agrees_presentItem (h : t.presentation = s.presentation) (item : Item)
    (name name' : String) (path path' : Option String) :
    (s.presentItem memory name path item).1.unaddressed.Agrees
      (t.presentItem memory name' path' item).1.unaddressed := by
  have hagrees : (s.presentItem memory name none item).1.Agrees
      (t.present memory ((Child.ofItem memory.heap name none item).named name')).1 :=
    agrees_present h name' _
  rw [Child.named_ofItem] at hagrees
  rw [unaddressed_presentItem, unaddressed_presentItem]
  exact hagrees

end Session

namespace Frame

/-- Two outcomes for one value: the same failure, or stubs that differ in name, path and handle. -/
inductive Concur :
    Except EvalError (Stub × Session) → Except EvalError (Stub × Session) → Prop where
  | failed (e : EvalError) : Concur (.error e) (.error e)
  | shown {a b : Stub} {s t : Session} (h : a.unaddressed.Agrees b.unaddressed) :
    Concur (.ok (a, s)) (.ok (b, t))

variable {frame : Frame} {context : Context} {memory : Memory} {presentation : Presentation}
  {s t : Session} {m : Method} {name : String} {i : Nat} {top : Item} {elements : ArrayRef}

/-! ## Slots -/

theorem findIdx?_slots_of_firstSlot (hmethod : frame.method = some m) (h : m.FirstSlot name i) :
    frame.slots.findIdx? (fun d => d.name = name) = some i := by
  cases h with
  | @intro before after d hslots hfirst =>
    have hnone : before.findIdx? (fun e => e.name = d.name) = none := by
      rw [List.findIdx?_eq_none_iff]
      intro e he
      exact decide_eq_false (hfirst e he)
    have hframe : frame.slots = before ++ d :: after := by
      rw [← hslots, slots, hmethod]
      rfl
    rw [hframe, List.findIdx?_append, hnone, List.findIdx?_cons, if_pos (decide_eq_true rfl)]
    simp

theorem localNamed_of_firstSlot (hmethod : frame.method = some m) (h : m.FirstSlot name i)
    (htop : context.altStack.getLast? = some top) (helements : top.elements? = some elements) :
    frame.localNamed context memory.heap name = (memory.heap.items elements)[i]? := by
  have hlocals : locals context = some elements := by
    rw [locals, htop]
    exact helements
  rw [localNamed, findIdx?_slots_of_firstSlot hmethod h, hlocals]
  rfl

/-! ## Stacks -/

theorem stackItems?_of_mem_stacks {stack : List Item} (h : (name, stack) ∈ context.stacks) :
    stackItems? context name = some stack.reverse := by
  rcases List.mem_pair.1 h with h | h
  · cases h
    rfl
  · cases h
    rfl

theorem evaluate_stack_of_getElem? {stack : List Item} {k : Nat} {item : Item}
    (h : (name, stack) ∈ context.stacks) (hitem : stack.reverse[k]? = some item)
    (rest : List Nat) :
    frame.evaluate context memory presentation (.stack name (k :: rest)) =
      (select memory.heap item rest).map
        (.ofItem memory.heap (EvaluatePath.stack name (k :: rest)).text
          (some (EvaluatePath.stack name (k :: rest)).text)) := by
  simp only [evaluate, stackItems?_of_mem_stacks h, hitem]

theorem evaluate_stack_of_le {stack : List Item} {k : Nat} (h : (name, stack) ∈ context.stacks)
    (hle : stack.length ≤ k) (rest : List Nat) :
    frame.evaluate context memory presentation (.stack name (k :: rest)) =
      .error (.indexOutOfRange k stack.length) := by
  have hitem : stack.reverse[k]? = none := by
    rw [List.getElem?_eq_none_iff, List.length_reverse]
    exact hle
  simp only [evaluate, stackItems?_of_mem_stacks h, hitem, List.length_reverse]

/-- The text that selects an item of a stack. -/
def itemText (name : String) (k : Nat) : String :=
  "$" ++ name ++ "[" ++ toString k ++ "]"

theorem text_stack_singleton (name : String) (k : Nat) :
    (EvaluatePath.stack name [k]).text = itemText name k := by
  rw [← String.toList_inj]
  simp [itemText, EvaluatePath.text, EvaluatePath.chars, EvaluatePath.indexChars, Decimal.digits]

theorem parse_itemText {stack : List Item} {k : Nat} (h : (name, stack) ∈ context.stacks)
    (hk : k < Decimal.limit64) : EvaluatePath.parse (itemText name k) = .ok (.stack name [k]) := by
  have hindices : ∀ i ∈ [k], i < Decimal.limit64 := by
    intro i hi
    rwa [List.mem_singleton.1 hi]
  rw [← text_stack_singleton]
  exact EvaluatePath.parse_text (canonical_stack (stackItems?_of_mem_stacks h) hindices)

/-- The items of a stack are numbered from its top, in paths and in texts. -/
structure CountsFromTop (frame : Frame) (context : Context) (memory : Memory) (s : Session)
    (name : String) (stack : List Item) : Prop where
  text : ∀ k, k < Decimal.limit64 → frame.evaluateIn context memory s (itemText name k) =
    frame.evaluatePathIn context memory s (.stack name [k])
  item : ∀ k, (h : k < stack.length) → frame.evaluatePathIn context memory s (.stack name [k]) =
    .ok (s.presentItem memory (itemText name k) (some (itemText name k))
      stack[stack.length - 1 - k])
  beyond : ∀ k rest, stack.length ≤ k →
    frame.evaluatePathIn context memory s (.stack name (k :: rest)) =
      .error (.indexOutOfRange k stack.length)

theorem countsFromTop_of_mem_stacks {stack : List Item} (h : (name, stack) ∈ context.stacks) :
    frame.CountsFromTop context memory s name stack where
  text k hk := evaluateIn_of_parse (parse_itemText h hk)
  item k hk := by
    have hitem : stack.reverse[k]? = some stack[stack.length - 1 - k] := by
      rw [List.getElem?_reverse hk, List.getElem?_eq_getElem]
    rw [evaluatePathIn, evaluate_stack_of_getElem? h hitem, text_stack_singleton]
    rfl
  beyond k rest hle := by
    rw [evaluatePathIn_eq_error]
    exact evaluate_stack_of_le h hle rest

/-! ## Locals -/

theorem concur_slot_altStack (hmethod : frame.method = some m) (hslot : m.FirstSlot name i)
    (htop : context.altStack.getLast? = some top) (helements : top.elements? = some elements)
    (hlt : i < (memory.heap.items elements).length) (ht : t.presentation = s.presentation)
    (rest : List Nat) :
    Concur (frame.evaluatePathIn context memory s (.slot name rest))
      (frame.evaluatePathIn context memory t (.stack altStackName (0 :: i :: rest))) := by
  obtain ⟨item, hitem⟩ : ∃ item, (memory.heap.items elements)[i]? = some item :=
    ⟨_, List.getElem?_eq_getElem hlt⟩
  have hnamed : frame.localNamed context memory.heap name = some item := by
    rw [localNamed_of_firstSlot hmethod hslot htop helements, hitem]
  have hmem : (altStackName, context.altStack) ∈ context.stacks := by
    rw [Context.stacks, List.mem_pair]
    exact .inr rfl
  have hhead : context.altStack.reverse[0]? = some top := by
    rw [← List.head?_eq_getElem?, List.head?_reverse, htop]
  -- from here on both paths walk down from the same item
  rw [evaluatePathIn, evaluatePathIn, evaluate_stack_of_getElem? hmem hhead,
    select_cons_of_getElem? helements hitem]
  simp only [evaluate, hnamed]
  cases select memory.heap item rest with
  | error e => exact .failed e
  | ok found => exact .shown (Session.agrees_presentItem ht found _ _ _ _)

theorem evaluatePathIn_slot_of_le (hmethod : frame.method = some m) (hslot : m.FirstSlot name i)
    (htop : context.altStack.getLast? = some top) (helements : top.elements? = some elements)
    (hle : (memory.heap.items elements).length ≤ i) (rest : List Nat) :
    frame.evaluatePathIn context memory s (.slot name rest) = .error (.unknownVariable name) := by
  have hnamed : frame.localNamed context memory.heap name = none := by
    rw [localNamed_of_firstSlot hmethod hslot htop helements, List.getElem?_eq_none hle]
  rw [evaluatePathIn_eq_error]
  simp only [evaluate, hnamed]

theorem evaluatePathIn_locals (frame : Frame) (context : Context) (memory : Memory) (s : Session) :
    (∀ m name i top elements rest, frame.method = some m → m.FirstSlot name i →
      context.altStack.getLast? = some top → (top = .array elements ∨ top = .struct elements) →
      if i < (memory.heap.items elements).length then
        ∀ t : Session, t.presentation = s.presentation →
          Concur (frame.evaluatePathIn context memory s (.slot name rest))
            (frame.evaluatePathIn context memory t (.stack altStackName (0 :: i :: rest)))
      else frame.evaluatePathIn context memory s (.slot name rest) =
        .error (.unknownVariable name)) ∧
      ∀ name stack, (name, stack) ∈ context.stacks →
        frame.CountsFromTop context memory s name stack := by
  constructor
  · intro m name i top elements rest hmethod hslot htop hsequence
    have helements : top.elements? = some elements := by
      rcases hsequence with rfl | rfl
      · rfl
      · rfl
    split
    · next hlt =>
      intro t ht
      exact concur_slot_altStack hmethod hslot htop helements hlt ht rest
    · next hle =>
      exact evaluatePathIn_slot_of_le hmethod hslot htop helements (Nat.not_lt.1 hle) rest
  · intro name stack hmem
    exact countsFromTop_of_mem_stacks hmem

/-- A name declared twice, a local that holds an array, and one whose slot is beyond the locals. -/
theorem evaluatePathIn_locals_nested :
    let method : Method :=
      ⟨"", "", "", 0, 9, [⟨"x", ""⟩], [⟨"x", ""⟩, ⟨"items", ""⟩, ⟨"far", ""⟩], none, [], .zero⟩
    let frame : Frame := ⟨none, some method, true, true⟩
    let memory : Memory :=
      ⟨⟨#[[.integer 7, .boolean true, .array ⟨1⟩], [.bytes [1, 2, 3]]], #[]⟩, fun _ => []⟩
    let context : Context := ⟨.zero, 0, [], [], [.integer 5, .struct ⟨0⟩]⟩
    let s := Session.start {}
    let bytes : Stub := ⟨"items[0]", "Byte[3]", "0x010203", 1, some 3, none, some "items[0]"⟩
    let seven : Stub := ⟨"x", "Integer", "7", 0, none, none, some "x"⟩
    method.FirstSlot "x" 0 ∧ method.FirstSlot "items" 2 ∧ method.FirstSlot "far" 3 ∧
      (∃ after, frame.evaluatePathIn context memory s (.slot "items" [0]) = .ok (bytes, after) ∧
        Concur (.ok (bytes, after))
          (frame.evaluatePathIn context memory after (.stack "altStack" [0, 2, 0]))) ∧
      Concur (.ok (seven, s)) (frame.evaluatePathIn context memory s (.stack "altStack" [0, 0])) ∧
      frame.evaluatePathIn context memory s (.slot "far" []) = .error (.unknownVariable "far") ∧
      frame.evaluateIn context memory s "$altStack[1]" =
        .ok (s.presentItem memory "$altStack[1]" (some "$altStack[1]") (.integer 5)) ∧
      frame.evaluatePathIn context memory s (.stack "altStack" [2, 0]) =
        .error (.indexOutOfRange 2 2) := by
  intro method frame memory context s bytes seven
  have hx : method.FirstSlot "x" 0 := by
    refine @Method.FirstSlot.intro method [] _ ⟨"x", ""⟩ rfl ?_
    simp
  have hitems : method.FirstSlot "items" 2 := by
    refine @Method.FirstSlot.intro method [⟨"x", ""⟩, ⟨"x", ""⟩] _ ⟨"items", ""⟩ rfl ?_
    simp
  have hfar : method.FirstSlot "far" 3 := by
    refine @Method.FirstSlot.intro method [⟨"x", ""⟩, ⟨"x", ""⟩, ⟨"items", ""⟩] _ _ rfl ?_
    simp
  obtain ⟨hlocal, hstack⟩ := evaluatePathIn_locals frame context memory s
  have halt := hstack "altStack" [.integer 5, .struct ⟨0⟩] (by decide)
  let after := (s.register memory ⟨.bytes [1, 2, 3] false, "items[0]", some "items[0]"⟩).2
  have hbytes : frame.evaluatePathIn context memory s (.slot "items" [0]) =
      .ok (bytes, after) := by
    have hstub : (s.register memory ⟨.bytes [1, 2, 3] false, "items[0]", some "items[0]"⟩).1 =
        bytes := by decide +kernel
    rw [← hstub]
    rfl
  refine ⟨hx, hitems, hfar, ⟨after, hbytes, ?_⟩, ?_, ?_, ?_, ?_⟩
  · rw [← hbytes]
    exact hlocal method "items" 2 (.struct ⟨0⟩) ⟨0⟩ [0] rfl hitems rfl (.inr rfl) after rfl
  · have hseven : frame.evaluatePathIn context memory s (.slot "x" []) = .ok (seven, s) := by rfl
    rw [← hseven]
    exact hlocal method "x" 0 (.struct ⟨0⟩) ⟨0⟩ [] rfl hx rfl (.inr rfl) s rfl
  · exact hlocal method "far" 3 (.struct ⟨0⟩) ⟨0⟩ [] rfl hfar rfl (.inr rfl)
  · exact (halt.text 1 (by decide)).trans (halt.item 1 (by decide))
  · exact halt.beyond 2 [0] (by decide)

end Frame
end ScriptScope

import ScriptScope.Proofs.Frame.Selection
import ScriptScope.Proofs.Session.Requests

/-!
# ScriptScope.Proofs.Frame.Addresses

Which children of the variable tree of a frame their paths select.

`Frame.Places` ties a child to the path it bears: the path is the text of a canonical one, and that
one selects the same child under another name. The tree has no depth to do an induction on, so all
is in its step, `places_children`: each kind of container hands on what ties it to its own path.

* `places_scopes`, `places_variables`, `places_evaluateText`: the tree begins with such children.
* `evaluateText_of_places`: the path of such a child selects it.
-/

namespace ScriptScope
namespace Frame

/-- Of locals and storages a frame shows its own only. -/
def Owns (frame : Frame) (context : Context) : Subject → Prop
  | .frame elements slots => elements = locals context ∧ slots = frame.slots
  | .storage contract => contract = context.scriptHash ∧ frame.showsStorage = true
  | .bytes _ _ | .sequence _ _ | .map _ | .mapEntry _ _ | .storageEntry _ => True

/-- A child of the variable tree of a frame: its path, if it has one, selects the same child. -/
structure Places (frame : Frame) (context : Context) (memory : Memory)
    (presentation : Presentation) (child : Child) : Prop where
  selects : ∀ p, child.path? = some p → ∃ path : EvaluatePath, path.Canonical ∧ path.text = p ∧
    frame.Selects context memory presentation path (child.named p)
  owns : ∀ c, child.container? = some c → frame.Owns context c.subject

variable {frame : Frame} {context : Context} {memory : Memory} {presentation : Presentation}
  {path : EvaluatePath} {child : Child}

theorem owns_ofItem {name : String} {p : Option String} {item : Item} {c : Container}
    (h : (Child.ofItem memory.heap name p item).container? = some c) :
    frame.Owns context c.subject := by
  cases item <;> cases h <;> trivial

theorem owns_node {c : Container} (h : frame.Owns context c.subject) :
    ∀ d, (Child.node c).container? = some d → frame.Owns context d.subject := by
  intro d hd
  obtain rfl := Option.some.inj hd
  exact h

theorem Selects.owns (h : frame.Selects context memory presentation path child) :
    ∀ c, child.container? = some c → frame.Owns context c.subject := by
  cases h with
  | stack hitems => exact owns_node trivial
  | stackItem hitems hroot hselect => exact fun _ => owns_ofItem
  | slot hroot hselect => exact fun _ => owns_ofItem
  | storageEntry hentry => exact owns_node trivial
  | storage half hentry => exact owns_node trivial

theorem places_of_path?_eq_none (h : child.path? = none)
    (howns : ∀ c, child.container? = some c → frame.Owns context c.subject) :
    frame.Places context memory presentation child where
  selects p hp := by
    rw [h] at hp
    cases hp
  owns := howns

theorem places_leaf (name typeLabel value : String) :
    frame.Places context memory presentation (.leaf name typeLabel value none) :=
  places_of_path?_eq_none rfl (by intro c hc; cases hc)

theorem places_ofItem_none (name : String) (item : Item) :
    frame.Places context memory presentation (.ofItem memory.heap name none item) :=
  places_of_path?_eq_none (Child.path?_ofItem ..) fun _ => owns_ofItem

theorem places_node {c : Container} (h : c.evaluatePath = none)
    (howns : frame.Owns context c.subject) :
    frame.Places context memory presentation (.node c) :=
  places_of_path?_eq_none h (owns_node howns)

theorem places_of_named (hpath : path.Canonical) (htext : child.path? = some path.text)
    (h : frame.Selects context memory presentation path (child.named path.text))
    (howns : ∀ c, child.container? = some c → frame.Owns context c.subject) :
    frame.Places context memory presentation child where
  selects p hp := by
    obtain rfl := Option.some.inj (htext.symm.trans hp)
    exact ⟨path, hpath, rfl, h⟩
  owns := howns

theorem places_ofItem {name : String} {item : Item} (hpath : path.Canonical)
    (h : frame.Selects context memory presentation path
      (.ofItem memory.heap path.text (some path.text) item)) :
    frame.Places context memory presentation
      (.ofItem memory.heap name (some path.text) item) := by
  apply places_of_named hpath (Child.path?_ofItem ..) _ fun _ => owns_ofItem
  rwa [Child.named_ofItem]

theorem places_of_selects (hpath : path.Canonical)
    (h : frame.Selects context memory presentation path child) :
    frame.Places context memory presentation child := by
  obtain ⟨htext, hnamed⟩ := h.path?_eq
  apply places_of_named hpath htext _ h.owns
  rwa [hnamed]

theorem places_element {elements : Elements} {isStruct : Bool} {name : String}
    {p : Option String} {i : Nat} {item : Item} (hfits : context.Fits memory)
    (h : frame.Places context memory presentation (.node ⟨.sequence elements isStruct, name, p⟩))
    (hi : (elements.items memory.heap)[i]? = some item) :
    frame.Places context memory presentation
      (.ofItem memory.heap (toString i) (p.map (Container.elementPath · i)) item) := by
  cases p with
  | none => exact places_ofItem_none _ item
  | some p =>
    obtain ⟨path, hpath, rfl, hsel⟩ := h.selects p rfl
    obtain ⟨further, hindex, hcanonical, hfurther⟩ := hsel.index hfits hpath rfl hi
    rw [Option.map_some, ← EvaluatePath.text_index? hindex]
    exact places_ofItem hcanonical hfurther

theorem places_slot {r : ArrayRef} {item : Item} {i : Nat}
    (hnames : (frame.slots.map Declaration.name).Nodup) (hr : locals context = some r)
    (hi : (memory.heap.items r)[i]? = some item) :
    frame.Places context memory presentation
      (Container.slotChild memory.heap frame.slots item i) := by
  unfold Container.slotChild
  cases hslot : frame.slots[i]? with
  | none => exact places_ofItem_none _ item
  | some slot =>
    simp only
    split
    · next hname =>
      have hpath : (EvaluatePath.slot slot.name []).Canonical := ⟨hname, by simp⟩
      have hsel : frame.Selects context memory presentation (.slot slot.name [])
          (.ofItem memory.heap (EvaluatePath.slot slot.name []).text
            (some (EvaluatePath.slot slot.name []).text) item) :=
        .slot (localNamed_of_nodup hnames hr hslot hi) rfl
      have hplaces : frame.Places context memory presentation (.ofItem memory.heap slot.name
          (some (EvaluatePath.slot slot.name []).text) item) := places_ofItem hpath hsel
      rwa [EvaluatePath.text_slot] at hplaces
    · -- a name that cannot head a path is shown without one
      exact places_ofItem_none _ item

theorem places_storage {entry : StorageEntry} (hshown : frame.showsStorage = true)
    (hkeys : ((memory.storage context.scriptHash).map StorageEntry.keyHash).Nodup)
    (h : entry ∈ memory.storage context.scriptHash) :
    frame.Places context memory presentation (Container.storageChild entry) := by
  have hsel : frame.Selects context memory presentation (.storageEntry entry.keyHash) _ :=
    .storageEntry (storageEntry_of_nodup hshown hkeys h)
  have hpath : (EvaluatePath.storageEntry entry.keyHash).Canonical := trivial
  exact places_of_named hpath rfl hsel (owns_node trivial)

theorem places_half {entry : StorageEntry} {name : String} {p : Option String}
    (h : frame.Places context memory presentation (.node ⟨.storageEntry entry, name, p⟩))
    (half : StorageField) :
    frame.Places context memory presentation
      (Container.halfChild presentation p half
        (match half with | .key => entry.key | .value => entry.value)) := by
  cases p with
  | none => exact places_node rfl trivial
  | some p =>
    obtain ⟨path, -, rfl, hsel⟩ := h.selects p rfl
    obtain ⟨keyHash, rfl, hentry⟩ := hsel.half rfl
    have hhalf : frame.Selects context memory presentation (.storage keyHash half) _ :=
      .storage half hentry
    have hpath : (EvaluatePath.storage keyHash half).Canonical := trivial
    rw [Container.halfChild, Option.map_some, ← EvaluatePath.text_storage]
    exact places_of_named hpath rfl hhalf (owns_node trivial)

/-! ## The whole tree -/

/-- The names of the declared slots differ, and so do the short hashes of the storage keys. -/
structure Unambiguous (frame : Frame) (context : Context) (memory : Memory) : Prop where
  names : (frame.slots.map Declaration.name).Nodup
  keys : frame.showsStorage = true →
    ((memory.storage context.scriptHash).map StorageEntry.keyHash).Nodup

theorem places_children {c : Container} (hfits : context.Fits memory)
    (hdistinct : frame.Unambiguous context memory)
    (h : frame.Places context memory presentation (.node c)) :
    ∀ child ∈ c.children memory presentation, frame.Places context memory presentation child := by
  intro child hchild
  obtain ⟨subject, name, p⟩ := c
  cases subject with
  | bytes content tagged =>
    obtain ⟨⟨b, i⟩, -, rfl⟩ := List.mem_map.1 hchild
    exact places_leaf ..
  | sequence elements isStruct =>
    obtain ⟨⟨item, i⟩, hmem, rfl⟩ := List.mem_map.1 hchild
    exact places_element hfits h (List.mk_mem_zipIdx_iff_getElem?.1 hmem)
  | map entries =>
    obtain ⟨⟨key, value⟩, -, rfl⟩ := List.mem_map.1 hchild
    exact places_node rfl trivial
  | mapEntry key value =>
    rcases List.mem_pair.1 hchild with rfl | rfl
    · exact places_ofItem_none "key" key
    · exact places_ofItem_none "value" value
  | frame elements slots =>
    -- the evaluator looks slots up in the frame, not in the container
    obtain ⟨rfl, rfl⟩ := h.owns _ rfl
    obtain ⟨⟨item, i⟩, hmem, rfl⟩ := List.mem_map.1 hchild
    have hi := List.mk_mem_zipIdx_iff_getElem?.1 hmem
    cases hr : locals context with
    | none => simp [hr, Subject.localItems] at hi
    | some r =>
      rw [hr] at hi
      exact places_slot hdistinct.names hr hi
  | storage contract =>
    obtain ⟨rfl, hshown⟩ := h.owns _ rfl
    obtain ⟨entry, hmem, rfl⟩ := List.mem_map.1 hchild
    exact places_storage hshown (hdistinct.keys hshown) hmem
  | storageEntry entry =>
    have hhalf := places_half h
    simp only [Container.children, List.mem_cons, List.not_mem_nil, or_false] at hchild
    rcases hchild with rfl | rfl | rfl
    · exact hhalf .key
    · exact hhalf .value
    · exact places_leaf ..

theorem places_localsContainer :
    frame.Places context memory presentation (.node (frame.localsContainer context)) :=
  places_node rfl ⟨rfl, rfl⟩

theorem places_stackContainer {name : String} {c : Container}
    (h : c ∈ stackContainer? context name) :
    frame.Places context memory presentation (.node c) := by
  obtain ⟨items, hitems, rfl⟩ := Option.map_eq_some_iff.1 h
  have hpath : (EvaluatePath.stack name []).Canonical := canonical_stack hitems (by simp)
  exact places_of_named hpath rfl (.stack hitems) (owns_node trivial)

theorem places_storageContainer {c : Container} (h : c ∈ frame.storageContainer? context) :
    frame.Places context memory presentation (.node c) := by
  unfold storageContainer? at h
  split at h
  · next hshown =>
    cases h
    exact places_node rfl ⟨rfl, hshown⟩
  · cases h

theorem places_scopes : ∀ child ∈ (frame.scopes context).map Child.node,
    frame.Places context memory presentation child := by
  intro child hchild
  obtain ⟨c, hc, rfl⟩ := List.mem_map.1 hchild
  simp only [scopes, List.cons_append, List.mem_cons, List.mem_append, Option.mem_toList] at hc
  rcases hc with rfl | (hc | hc) | hc
  · exact places_localsContainer
  · exact places_stackContainer hc
  · split at hc
    · exact places_stackContainer (Option.mem_toList.1 hc)
    · cases hc
  · exact places_storageContainer hc

theorem places_variables (hfits : context.Fits memory)
    (hdistinct : frame.Unambiguous context memory) :
    ∀ child ∈ frame.localVariables context memory presentation,
      frame.Places context memory presentation child :=
  places_children hfits hdistinct places_localsContainer

theorem places_evaluateText {text : String}
    (h : frame.evaluateText context memory presentation text = .ok child) :
    frame.Places context memory presentation child := by
  unfold evaluateText at h
  split at h
  · cases h
  · next path hparse =>
    exact places_of_selects (EvaluatePath.canonical_of_parse hparse) (selects_of_evaluate h)

theorem evaluateText_of_places {p : String}
    (h : frame.Places context memory presentation child) (hp : child.path? = some p) :
    frame.evaluateText context memory presentation p = .ok (child.named p) := by
  obtain ⟨path, hpath, rfl, hsel⟩ := h.selects p hp
  rw [evaluateText, EvaluatePath.parse_text hpath]
  exact evaluate_of_selects hsel

end Frame
end ScriptScope

import ScriptScope.Proofs.Session.Expansion

/-!
# ScriptScope.Proofs.Session.Captions

What a client reads of a stub: the name, the label, the value and the path. The handle and the
counts are left aside.

The caption of an item is a function of the item and the heap (`Item.caption`), however the item is
reached. So what an expansion shows is said by listing the items that a container has one child for.

* `map_caption_presentAll`: showing children gives their captions, whatever was shown before.
* `map_caption_elements`, `map_caption_locals`: the children of a sequence, and of the locals of a
  frame, one for each item, in order.
-/

namespace ScriptScope

structure Caption where
  name : String
  typeLabel : String
  value : String
  path : Option String
deriving DecidableEq, Repr

def Stub.caption (s : Stub) : Caption :=
  ⟨s.name, s.typeLabel, s.value, s.evaluatePath⟩

namespace Item

/-- The label of an item: the kind of a plain value, and the size of anything that has parts. -/
def label (heap : Heap) : Item → String
  | .bytes value => sized "Byte" value.length
  | .array r => sized "Array" (heap.items r).length
  | .struct r => sized "Struct" (heap.items r).length
  | .map r => sized "Map" (heap.entries r).length
  | item => item.typeName

def caption (heap : Heap) (name : String) (path : Option String) (item : Item) : Caption :=
  ⟨name, item.label heap, item.preview heap, path⟩

/-- The captions of the items of a sequence, which are named by their places. -/
def captions (heap : Heap) (path : Option String) (items : List Item) : List Caption :=
  items.mapIdx fun i item =>
    item.caption heap (toString i) (path.map (Container.elementPath · i))

end Item

/-- The name of a local: the declared one, or its place. -/
def slotName (slots : List Declaration) (i : Nat) : String :=
  match slots[i]? with
  | some d => d.name
  | none => "<variable " ++ toString i ++ ">"

/-- The path of a local: its declared name, where that can head a path. -/
def slotPath? (slots : List Declaration) (i : Nat) : Option String :=
  (slots[i]?.map Declaration.name).filter fun name => EvaluatePath.isEvaluable name.toList

def StorageEntry.caption (entry : StorageEntry) : Caption :=
  ⟨String.ofList (Hex.word entry.keyHash), "StorageEntry", Item.hexText entry.value,
    some (EvaluatePath.storageEntry entry.keyHash).text⟩

namespace Child

def caption (memory : Memory) : Child → Caption
  | .leaf name typeLabel value path => ⟨name, typeLabel, value, path⟩
  | .node c =>
    ⟨c.name, c.subject.typeLabel memory, c.subject.preview memory, c.evaluatePath⟩

variable {memory : Memory}

theorem caption_ofItem (name : String) (path : Option String) (item : Item) :
    (ofItem memory.heap name path item).caption memory =
      item.caption memory.heap name path := by
  cases item with
  | bytes value =>
    simp only [ofItem, caption, Item.caption, Item.label, Subject.typeLabel, Subject.preview,
      Item.preview, Bool.false_eq_true, if_false, String.append_empty]
  | boolean value => rfl
  | integer value => rfl
  | array r => rfl
  | struct r => rfl
  | map r => rfl
  | interop name => rfl

theorem caption_unnumbered (limit : Option Nat) (child : Child) :
    (child.unnumbered memory limit).1.caption = child.caption memory := by
  cases child <;> rfl

end Child

namespace Container

variable (memory : Memory) (presentation : Presentation)

theorem caption_slotChild (slots : List Declaration) (item : Item) (i : Nat) :
    (slotChild memory.heap slots item i).caption memory =
      item.caption memory.heap (slotName slots i) (slotPath? slots i) := by
  unfold slotChild slotName slotPath?
  cases slots[i]? with
  | none => exact Child.caption_ofItem ..
  | some d =>
    rw [Child.caption_ofItem]
    rfl

theorem map_caption_elements (name : String) (path : Option String) (elements : Elements)
    (isStruct : Bool) :
    ((⟨.sequence elements isStruct, name, path⟩ : Container).children memory presentation).map
        (Child.caption memory) =
      Item.captions memory.heap path (elements.items memory.heap) := by
  rw [Item.captions, List.mapIdx_eq_zipIdx_map, children, List.map_map]
  exact List.map_congr_left fun entry _ => Child.caption_ofItem ..

theorem map_caption_locals (name : String) (path : Option String) (locals : Option ArrayRef)
    (slots : List Declaration) :
    ((⟨.frame locals slots, name, path⟩ : Container).children memory presentation).map
        (Child.caption memory) =
      (Subject.localItems memory.heap locals).mapIdx fun i item =>
        item.caption memory.heap (slotName slots i) (slotPath? slots i) := by
  rw [List.mapIdx_eq_zipIdx_map, children, List.map_map]
  exact List.map_congr_left fun entry _ => caption_slotChild memory slots entry.1 entry.2

end Container

namespace Session

variable {memory : Memory} {s : Session}

theorem map_caption_presentAll (children : List Child) :
    (s.presentAll memory children).1.map Stub.caption = children.map (Child.caption memory) := by
  have hshown := congrArg (List.map fun shown => shown.1.caption)
    (@map_unnumbered_presentAll memory s children)
  rw [List.map_map, List.map_map] at hshown
  refine Eq.trans ?_ (hshown.trans (List.map_congr_left fun child _ => ?_))
  · rfl
  · exact Child.caption_unnumbered _ child

end Session
end ScriptScope

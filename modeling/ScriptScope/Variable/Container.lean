import ScriptScope.DebugInfo
import ScriptScope.Item
import ScriptScope.Storage
import ScriptScope.Text.Quoted
import ScriptScope.Variable.Path
import ScriptScope.Variable.Stub

/-!
# ScriptScope.Variable.Container

The nodes of the variable tree.

A container says what is shown, not what it holds: its children are computed from the memory of the
machine each time they are asked for, so they show what is there at that moment. Only three kinds
keep what they were made from: a stack keeps its list of items, and an entry of a map or of the
storage its key and value.

* `Container.children` gives leaves and further containers without a handle; handles are the
  business of a session.
-/

namespace ScriptScope

/-- What the machine holds: its composites, and the storage of all contracts. -/
structure Memory where
  heap : Heap
  storage : StorageView

/-- How containers are presented. -/
structure Presentation where
  /-- Whether the buffers of a storage entry show their short hash. -/
  hashStorageBuffers : Bool
  /-- How many bytes of a buffer have a child of their own, if there is a limit. -/
  byteLimit : Option Nat
deriving DecidableEq, Repr

/-- Where the elements of a sequence are. -/
inductive Elements where
  /-- In the memory of the machine. -/
  | shared (elements : ArrayRef)
  /-- In a copy of a stack, its top first. -/
  | snapshot (items : List Item)
deriving DecidableEq, Repr

def Elements.items (heap : Heap) : Elements → List Item
  | .shared r => heap.items r
  | .snapshot items => items

/-- What a container shows. -/
inductive Subject where
  /-- A byte string; when `tagged`, its label shows its short hash. -/
  | bytes (content : Bytes) (tagged : Bool)
  | sequence (elements : Elements) (isStruct : Bool)
  | map (entries : MapRef)
  | mapEntry (key value : Item)
  /-- The locals of a frame beside their declarations. -/
  | frame (locals : Option ArrayRef) (slots : List Declaration)
  /-- All storage entries of a contract. -/
  | storage (contract : ScriptHash)
  | storageEntry (entry : StorageEntry)
deriving DecidableEq, Repr

structure Container where
  subject : Subject
  name : String
  /-- The path that selects the value again, if there is one. -/
  evaluatePath : Option String
deriving DecidableEq, Repr

namespace Subject

/-- The elements of the locals of a frame. -/
def localItems (heap : Heap) (locals : Option ArrayRef) : List Item :=
  (locals.map heap.items).getD []

/-- The label beside the name. -/
def typeLabel (memory : Memory) : Subject → String
  | .bytes content tagged =>
    Item.sized "Byte" content.length ++
      if tagged then " #" ++ String.ofList (Hex.word (contentHash content)) else ""
  | .sequence elements isStruct =>
    Item.sized (if isStruct then "Struct" else "Array") (elements.items memory.heap).length
  | .map r => Item.sized "Map" (memory.heap.entries r).length
  | .mapEntry _ _ => "MapEntry"
  | .frame _ _ => "Frame"
  | .storage _ => "Storage"
  | .storageEntry _ => "StorageEntry"

/-- A short text of the value. -/
def preview (memory : Memory) : Subject → String
  | .bytes content _ => Item.hexText content
  | s@(.sequence _ _) | s@(.map _) => s.typeLabel memory
  | .mapEntry key value => key.preview memory.heap ++ ": " ++ value.preview memory.heap
  | .frame _ _ => ""
  | .storage contract => contract.text
  | .storageEntry entry => Item.hexText entry.value

/-- How many children have an index, and how many a name. -/
def counts (memory : Memory) (limit : Option Nat) : Subject → Option Nat × Option Nat
  | .bytes content _ => (some (match limit with
      | some n => min content.length n
      | none => content.length), none)
  | .sequence elements _ => (some (elements.items memory.heap).length, none)
  | .map r => (some (memory.heap.entries r).length, none)
  | .mapEntry _ _ => (none, some 2)
  | .frame locals _ => (none, some (localItems memory.heap locals).length)
  | .storage contract => (none, some (memory.storage contract).length)
  | .storageEntry _ => (none, some 3)

/-- A record with its fields between braces. -/
def recordText (kind : String) (fields : List (String × String)) : String :=
  kind ++ " \x7b " ++
    String.intercalate ", " (fields.map fun (name, value) => name ++ ": " ++ value) ++ " \x7d"

def declarationText (d : Declaration) : String :=
  recordText "VariableDecl" [("name", String.ofList (Quoted.text d.name.toList)),
    ("type_name", String.ofList (Quoted.text d.typeName.toList))]

/-- The whole subject as a record, for inspection. -/
def describe (memory : Memory) : Subject → String
  | .bytes content tagged =>
    recordText "ByteBuffer" [("bytes", Item.hexText content), ("hashed", Item.boolText tagged)]
  | .sequence elements isStruct =>
    recordText "CompositeArray" [("len", toString (elements.items memory.heap).length),
      ("is_struct", Item.boolText isStruct)]
  | .map r => "Map(" ++ toString (memory.heap.entries r).length ++ ")"
  | .mapEntry key value =>
    recordText "MapEntry" [("key", key.describe memory.heap), ("value", value.describe memory.heap)]
  | .frame locals slots =>
    recordText "Frame" [
      ("locals", match locals with
        | none => "None"
        | some r => "Some(" ++ toString (memory.heap.items r).length ++ ")"),
      ("slots", "[" ++ String.intercalate ", " (slots.map declarationText) ++ "]")]
  | .storage contract =>
    recordText "StorageSnapshot"
      [("script_hash", "ScriptHash(" ++ Item.hexText contract.bytes ++ ")")]
  | .storageEntry entry =>
    "StorageEntry(" ++ recordText "StorageEntry" [("key", Item.hexText entry.key),
      ("value", Item.hexText entry.value), ("is_constant", Item.boolText entry.isConstant)] ++ ")"

end Subject

inductive Child where
  | leaf (name typeLabel value : String) (path : Option String)
  | node (container : Container)
deriving DecidableEq, Repr

/-- An item as a child: a leaf, or a container when there is something below. -/
def Child.ofItem (heap : Heap) (name : String) (path : Option String) (item : Item) : Child :=
  match item with
  | .bytes content => .node ⟨.bytes content false, name, path⟩
  | .array r => .node ⟨.sequence (.shared r) false, name, path⟩
  | .struct r => .node ⟨.sequence (.shared r) true, name, path⟩
  | .map r => .node ⟨.map r, name, path⟩
  | item => .leaf name item.typeName (item.preview heap) path

namespace Container

/-- The stub of a container under a handle. -/
def stub (memory : Memory) (limit : Option Nat) (c : Container) (handle : Int) : Stub where
  name := c.name
  typeLabel := c.subject.typeLabel memory
  value := c.subject.preview memory
  handle := handle
  indexedCount := (c.subject.counts memory limit).1
  namedCount := (c.subject.counts memory limit).2
  evaluatePath := c.evaluatePath

def byteChild (b : UInt8) (i : Nat) : Child :=
  .leaf (toString i) "Byte" (Item.hexText [b]) none

def elementPath (path : String) (i : Nat) : String :=
  path ++ String.ofList (EvaluatePath.indexChars i)

/-- The child that shows a slot of a frame. -/
def slotChild (heap : Heap) (slots : List Declaration) (item : Item) (i : Nat) : Child :=
  match slots[i]? with
  | some d =>
    let path := if EvaluatePath.isEvaluable d.name.toList then some d.name else none
    .ofItem heap d.name path item
  | none => .ofItem heap ("<variable " ++ toString i ++ ">") none item

def storageChild (entry : StorageEntry) : Child :=
  .node ⟨.storageEntry entry, String.ofList (Hex.word entry.keyHash),
    some (EvaluatePath.storageEntry entry.keyHash).text⟩

/-- The child that shows one half of a storage entry. -/
def halfChild (presentation : Presentation) (path : Option String) (half : StorageField)
    (content : Bytes) : Child :=
  .node ⟨.bytes content presentation.hashStorageBuffers, half.name,
    path.map fun p => p ++ "." ++ half.name⟩

def children (memory : Memory) (presentation : Presentation) (c : Container) : List Child :=
  match c.subject with
  | .bytes content _ =>
    let shown := match presentation.byteLimit with
      | some n => content.take n
      | none => content
    shown.zipIdx.map fun (b, i) => byteChild b i
  | .sequence elements _ =>
    (elements.items memory.heap).zipIdx.map fun (item, i) =>
      .ofItem memory.heap (toString i) (c.evaluatePath.map (elementPath · i)) item
  | .map r =>
    (memory.heap.entries r).map fun (key, value) => .node ⟨.mapEntry key value, "", none⟩
  | .mapEntry key value =>
    [.ofItem memory.heap "key" none key, .ofItem memory.heap "value" none value]
  | .frame locals slots =>
    (Subject.localItems memory.heap locals).zipIdx.map fun (item, i) =>
      slotChild memory.heap slots item i
  | .storage contract => (memory.storage contract).map storageChild
  | .storageEntry entry =>
    [halfChild presentation c.evaluatePath .key entry.key,
     halfChild presentation c.evaluatePath .value entry.value,
     .leaf "constant" "Boolean" (Item.boolText entry.isConstant) none]

theorem length_children_sequence {memory : Memory} {presentation : Presentation} {c : Container}
    {elements : Elements} {isStruct : Bool} (h : c.subject = .sequence elements isStruct) :
    (c.children memory presentation).length = (elements.items memory.heap).length := by
  simp [children, h]

theorem length_children_map {memory : Memory} {presentation : Presentation} {c : Container}
    {r : MapRef} (h : c.subject = .map r) :
    (c.children memory presentation).length = (memory.heap.entries r).length := by
  simp [children, h]

end Container
end ScriptScope

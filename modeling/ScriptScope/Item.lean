import ScriptScope.OrderedMap
import ScriptScope.Text.Hex

/-!
# ScriptScope.Item

The items of a machine's stacks and the heap that their composites share.

An array, a struct or a map is a reference into the heap: whoever holds it sees every later change,
and a composite may hold itself. Two items are equal when they are of one kind and hold the same
value or the same reference; so an array and a struct over the same elements differ.

* `Heap.items_setItems`: a change of one array is seen through its reference and no other.
-/

namespace ScriptScope

/-- A reference to the elements of an array or a struct. -/
structure ArrayRef where
  index : Nat
deriving DecidableEq, Repr

/-- A reference to the entries of a map. -/
structure MapRef where
  index : Nat
deriving DecidableEq, Repr

/-- An item of a stack or of a composite. -/
inductive Item where
  | boolean (value : Bool)
  | integer (value : Int)
  | bytes (value : Bytes)
  | array (elements : ArrayRef)
  | struct (elements : ArrayRef)
  | map (entries : MapRef)
  /-- An object of the host, known by the name of its type. -/
  | interop (name : String)
deriving DecidableEq, Repr

/-- The composites of a machine. -/
structure Heap where
  arrays : Array (List Item)
  maps : Array (OrderedMap Item Item)

namespace Heap

def empty : Heap := ⟨#[], #[]⟩

def items (heap : Heap) (r : ArrayRef) : List Item :=
  heap.arrays.getD r.index []

/-- The map behind a reference. -/
def mapAt (heap : Heap) (r : MapRef) : OrderedMap Item Item :=
  heap.maps.getD r.index .empty

def entries (heap : Heap) (r : MapRef) : List (Item × Item) :=
  (heap.mapAt r).entries

/-- New elements and their reference. -/
def newArray (heap : Heap) (items : List Item) : ArrayRef × Heap :=
  (⟨heap.arrays.size⟩, { heap with arrays := heap.arrays.push items })

/-- New entries and their reference; an equal key keeps its place and takes the later value. -/
def newMap (heap : Heap) (pairs : List (Item × Item)) : MapRef × Heap :=
  (⟨heap.maps.size⟩, { heap with maps := heap.maps.push (.ofList pairs) })

/-- Changes the elements behind a reference. -/
def setItems (heap : Heap) (r : ArrayRef) (items : List Item) : Heap :=
  { heap with arrays := heap.arrays.setIfInBounds r.index items }

/-- Inserts an entry into the map behind a reference. -/
def insert (heap : Heap) (r : MapRef) (key value : Item) : Heap :=
  { heap with maps := heap.maps.setIfInBounds r.index ((heap.mapAt r).insert key value) }

/-- Whether there are elements behind a reference. -/
def Holds (heap : Heap) (r : ArrayRef) : Prop :=
  r.index < heap.arrays.size

theorem items_newArray (heap : Heap) (items : List Item) :
    (heap.newArray items).2.items (heap.newArray items).1 = items := by
  simp [newArray, Heap.items]

theorem items_setItems {heap : Heap} {r : ArrayRef} (h : heap.Holds r) (items : List Item)
    (other : ArrayRef) :
    (heap.setItems r items).items other = if other = r then items else heap.items other := by
  obtain ⟨i⟩ := r
  obtain ⟨j⟩ := other
  simp only [Holds] at h
  by_cases hj : j = i
  · simp [setItems, Heap.items, hj, h]
  · simp [setItems, Heap.items, hj, Array.getElem?_setIfInBounds_ne (Ne.symm hj)]

end Heap

namespace Item

def typeName : Item → String
  | .boolean _ => "Boolean"
  | .integer _ => "Integer"
  | .bytes _ => "ByteArray"
  | .array _ => "Array"
  | .struct _ => "Struct"
  | .map _ => "Map"
  | .interop _ => "InteropInterface"

def elements? : Item → Option ArrayRef
  | .array r | .struct r => some r
  | _ => none

/-- A kind of composite and how much it holds. -/
def sized (kind : String) (size : Nat) : String :=
  kind ++ "[" ++ toString size ++ "]"

def hexText (bs : Bytes) : String :=
  String.ofList (Hex.marked bs)

def boolText (b : Bool) : String :=
  if b then "true" else "false"

/-- A short text of the value; of a composite it shows the size only. -/
def preview (heap : Heap) : Item → String
  | .boolean value => boolText value
  | .integer value => String.ofList (Decimal.signed value)
  | .bytes value => hexText value
  | .array r => sized "Array" (heap.items r).length
  | .struct r => sized "Struct" (heap.items r).length
  | .map r => sized "Map" (heap.entries r).length
  | .interop name => "<" ++ name ++ ">"

/-- The kind and the preview of an item. -/
def describe (heap : Heap) (item : Item) : String :=
  item.typeName ++ "(" ++ item.preview heap ++ ")"

end Item
end ScriptScope

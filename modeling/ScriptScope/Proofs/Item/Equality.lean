import ScriptScope.Item
import ScriptScope.Proofs.OrderedMap

/-!
# ScriptScope.Proofs.Item.Equality

When two items are one key of a map.

The machine compares items without looking into the heap: a plain value is what it is, a composite
is where it is, and items of different kinds are never equal (`Item.same`). The hash of an item is
made of the same parts (`Item.hashInput`). What these tests come to is said by the heap itself: two
references are to one place when whatever is written through one is read through the other
(`Heap.Shares`).

* `same_iff_eq`, `hashInput_eq_iff`: both tests are equality of items, so maps under them are the
  ordered maps of the heap.
* `alike_iff`: composites that the heap holds are equal exactly when they are of one kind and share
  their place.
-/

namespace ScriptScope

theorem ArrayRef.index_inj {r s : ArrayRef} : r.index = s.index ↔ r = s := by
  cases r
  cases s
  simp

theorem MapRef.index_inj {r s : MapRef} : r.index = s.index ↔ r = s := by
  cases r
  cases s
  simp

/-! ## Comparing -/

namespace Item

/-- Whether two items are equal: values by what they are, composites by where they are. -/
def same : Item → Item → Bool
  | .boolean a, .boolean b => a == b
  | .integer a, .integer b => a == b
  | .bytes a, .bytes b => a == b
  | .interop a, .interop b => a == b
  | .array r, .array s | .struct r, .struct s => r.index == s.index
  | .map r, .map s => r.index == s.index
  | _, _ => false

/-- What is hashed of an item besides its kind. -/
inductive HashInput where
  | flag (value : Bool)
  | number (value : Int)
  | content (value : Bytes)
  | text (value : String)
  | place (index : Nat)
deriving DecidableEq, Repr

/-- What goes into the hash of an item: its kind, then its value or its place. -/
def hashInput : Item → String × HashInput
  | item@(.boolean value) => (item.typeName, .flag value)
  | item@(.integer value) => (item.typeName, .number value)
  | item@(.bytes value) => (item.typeName, .content value)
  | item@(.interop name) => (item.typeName, .text name)
  | item@(.array r) | item@(.struct r) => (item.typeName, .place r.index)
  | item@(.map r) => (item.typeName, .place r.index)

theorem same_iff_eq {a b : Item} : a.same b = true ↔ a = b := by
  cases a <;> cases b <;> simp [same, ArrayRef.index_inj, MapRef.index_inj]

theorem equivalence_same : Equivalence fun a b : Item => a.same b = true where
  refl _ := same_iff_eq.2 rfl
  symm h := same_iff_eq.2 (same_iff_eq.1 h).symm
  trans h h' := same_iff_eq.2 ((same_iff_eq.1 h).trans (same_iff_eq.1 h'))

theorem hashInput_eq_iff {a b : Item} : a.hashInput = b.hashInput ↔ a.same b = true := by
  cases a <;> cases b <;> simp [same, hashInput, typeName]

end Item

/-! ## Places -/

namespace Heap

/-- Whether there are entries behind a reference. -/
def HoldsMap (heap : Heap) (r : MapRef) : Prop :=
  r.index < heap.maps.size

/-- Whether two references are to one place: whatever is written through the first is read through
the second. -/
def Shares (heap : Heap) (r s : ArrayRef) : Prop :=
  ∀ items, (heap.setItems r items).items s = items

def SharesMap (heap : Heap) (r s : MapRef) : Prop :=
  ∀ key value, ((heap.insert r key value).mapAt s).find? key = some value

variable {heap : Heap}

theorem mapAt_write_self {r : MapRef} (h : heap.HoldsMap r) (m : OrderedMap Item Item) :
    ({ heap with maps := heap.maps.setIfInBounds r.index m } : Heap).mapAt r = m := by
  simp only [HoldsMap] at h
  simp [mapAt, h]

theorem mapAt_write_of_ne {r s : MapRef} (h : s ≠ r) (m : OrderedMap Item Item) :
    ({ heap with maps := heap.maps.setIfInBounds r.index m } : Heap).mapAt s = heap.mapAt s := by
  have hindex : r.index ≠ s.index := fun he => h (MapRef.index_inj.1 he).symm
  simp [mapAt, Array.getElem?_setIfInBounds_ne hindex]

theorem mapAt_newMap_self (heap : Heap) (pairs : List (Item × Item)) :
    (heap.newMap pairs).2.mapAt (heap.newMap pairs).1 = .ofList pairs := by
  simp [mapAt, newMap]

theorem mapAt_newMap_of_holds {r : MapRef} (h : heap.HoldsMap r) (pairs : List (Item × Item)) :
    (heap.newMap pairs).2.mapAt r = heap.mapAt r := by
  have hne : r.index ≠ heap.maps.size := Nat.ne_of_lt h
  simp [mapAt, newMap, Array.getElem?_push, hne]

theorem shares_iff {r s : ArrayRef} (h : heap.Holds r) : heap.Shares r s ↔ r = s := by
  simp only [Shares, items_setItems h]
  constructor
  · intro hshares
    by_cases hs : s = r
    · exact hs.symm
    · -- what is read through another reference cannot be two lists
      have hnil := hshares []
      have hone := hshares [.boolean true]
      rw [if_neg hs] at hnil hone
      rw [hnil] at hone
      cases hone
  · rintro rfl items
    exact if_pos rfl

theorem sharesMap_iff {r s : MapRef} (h : heap.HoldsMap r) : heap.SharesMap r s ↔ r = s := by
  constructor
  · intro hshares
    by_cases hs : s = r
    · exact hs.symm
    · have htrue := hshares (.boolean true) (.boolean true)
      have hfalse := hshares (.boolean true) (.boolean false)
      rw [insert, mapAt_write_of_ne hs] at htrue hfalse
      rw [htrue] at hfalse
      cases hfalse
  · rintro rfl key value
    rw [insert, mapAt_write_self h, OrderedMap.find?_insert, if_pos rfl]

end Heap

namespace Item

/-- Whether the heap holds what an item refers to. -/
def Held (heap : Heap) : Item → Prop
  | .array r | .struct r => heap.Holds r
  | .map r => heap.HoldsMap r
  | _ => True

/-- Two items that are one key: equal values of one kind, or composites of one kind at one place. -/
inductive Alike (heap : Heap) : Item → Item → Prop where
  | boolean (value : Bool) : Alike heap (.boolean value) (.boolean value)
  | integer (value : Int) : Alike heap (.integer value) (.integer value)
  | bytes (value : Bytes) : Alike heap (.bytes value) (.bytes value)
  | interop (name : String) : Alike heap (.interop name) (.interop name)
  | array {r s : ArrayRef} (h : heap.Shares r s) : Alike heap (.array r) (.array s)
  | struct {r s : ArrayRef} (h : heap.Shares r s) : Alike heap (.struct r) (.struct s)
  | map {r s : MapRef} (h : heap.SharesMap r s) : Alike heap (.map r) (.map s)

theorem alike_self {heap : Heap} {a : Item} (h : a.Held heap) : Alike heap a a := by
  cases a with
  | boolean value => exact .boolean value
  | integer value => exact .integer value
  | bytes value => exact .bytes value
  | array r => exact .array ((Heap.shares_iff h).2 rfl)
  | struct r => exact .struct ((Heap.shares_iff h).2 rfl)
  | map r => exact .map ((Heap.sharesMap_iff h).2 rfl)
  | interop name => exact .interop name

theorem alike_iff {heap : Heap} {a b : Item} (h : a.Held heap) :
    Alike heap a b ↔ a.same b = true := by
  rw [same_iff_eq]
  constructor
  · intro halike
    cases halike with
    | boolean value => rfl
    | integer value => rfl
    | bytes value => rfl
    | interop name => rfl
    | array hshares => rw [(Heap.shares_iff h).1 hshares]
    | struct hshares => rw [(Heap.shares_iff h).1 hshares]
    | map hshares => rw [(Heap.sharesMap_iff h).1 hshares]
  · rintro rfl
    exact alike_self h

end Item
end ScriptScope

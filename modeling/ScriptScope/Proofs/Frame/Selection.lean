import Mathlib.Data.List.Nodup
import ScriptScope.Frame
import ScriptScope.Proofs.Path.RoundTrip

/-!
# ScriptScope.Proofs.Frame.Selection

What paths select in a frame. `Selects` is the relation beside `Frame.evaluate`, with one case for
each way in which a path can lead to a child.

* `evaluate_of_selects`, `selects_of_evaluate`: `Selects` is `evaluate` where it succeeds.
* `Selects.index`: below a sequence, one index further, a path selects the element with that index.
* `Selects.half`: only the path of a storage entry selects one.
* `localNamed_of_nodup`, `storageEntry_of_nodup`: a slot is found under its name and a storage
  entry under its hash, where these differ.
-/

namespace ScriptScope

namespace EvaluatePath

/-- The path one index further, if it goes by indices. -/
def index? (i : Nat) : EvaluatePath → Option EvaluatePath
  | .stack name indices => some (.stack name (indices ++ [i]))
  | .slot name indices => some (.slot name (indices ++ [i]))
  | .storageEntry _ | .storage _ _ => none

theorem text_index? {path further : EvaluatePath} {i : Nat} (h : path.index? i = some further) :
    further.text = Container.elementPath path.text i := by
  cases path <;> cases h <;>
    simp [text, chars, Container.elementPath, String.ofList_append, String.append_assoc]

theorem text_slot (name : String) : (slot name []).text = name := by
  simp [text, chars]

theorem text_storage (keyHash : UInt32) (half : StorageField) :
    (storage keyHash half).text = (storageEntry keyHash).text ++ "." ++ half.name := by
  simp [text, chars, String.ofList_append, ← String.toList_inj]

end EvaluatePath

/-! ## The children of containers -/

namespace Child

def path? : Child → Option String
  | .leaf _ _ _ path => path
  | .node c => c.evaluatePath

/-- The child under another name. -/
def named (name : String) : Child → Child
  | .leaf _ typeLabel value path => .leaf name typeLabel value path
  | .node c => .node { c with name := name }

variable (heap : Heap) (name : String) (path : Option String) (item : Item)

theorem path?_ofItem : (ofItem heap name path item).path? = path := by
  cases item <;> rfl

theorem named_ofItem (other : String) :
    (ofItem heap name path item).named other = ofItem heap other path item := by
  cases item <;> rfl

variable {heap name path item}

theorem elements?_of_ofItem {elements : Elements} {isStruct : Bool} {n : String}
    {p : Option String}
    (h : ofItem heap name path item = .node ⟨.sequence elements isStruct, n, p⟩) :
    ∃ r, elements = .shared r ∧ item.elements? = some r := by
  cases item <;> cases h <;> exact ⟨_, rfl, rfl⟩

theorem ofItem_ne_storageEntry {entry : StorageEntry} {n : String} {p : Option String} :
    ofItem heap name path item ≠ .node ⟨.storageEntry entry, n, p⟩ := by
  cases item <;> simp [ofItem]

end Child

/-! ## What paths select -/

theorem select_concat (heap : Heap) (item : Item) (indices : List Nat) (i : Nat) :
    select heap item (indices ++ [i]) =
      match select heap item indices with
      | .error e => .error e
      | .ok found => indexInto heap found i := by
  simp only [select, List.foldlM_append, List.foldlM_cons, List.foldlM_nil]
  cases List.foldlM (indexInto heap) item indices with
  | error e => rfl
  | ok found =>
    show (indexInto heap found i >>= pure) = _
    rw [bind_pure]

theorem select_concat_eq_ok {heap : Heap} {item parent found : Item} {indices : List Nat} {i : Nat}
    {r : ArrayRef} (h : select heap item indices = .ok parent) (hr : parent.elements? = some r)
    (hi : (heap.items r)[i]? = some found) : select heap item (indices ++ [i]) = .ok found := by
  rw [select_concat, h]
  simp only [indexInto, hr, hi]

/-- No list of items is longer than a machine word can count; the machine keeps them in memory. -/
structure Context.Fits (context : Context) (memory : Memory) : Prop where
  items : ∀ r, (memory.heap.items r).length ≤ Decimal.limit64
  evaluationStack : context.evaluationStack.length ≤ Decimal.limit64
  altStack : context.altStack.length ≤ Decimal.limit64

namespace Frame

/-- What `evaluate` does with a path that selects something. -/
inductive Selects (frame : Frame) (context : Context) (memory : Memory)
    (presentation : Presentation) : EvaluatePath → Child → Prop where
  | stack {name : String} {items : List Item} (hitems : stackItems? context name = some items) :
    Selects frame context memory presentation (.stack name [])
      (.node (stackSnapshot items (EvaluatePath.stack name []).text
        (EvaluatePath.stack name []).text))
  | stackItem {name : String} {items : List Item} {first : Nat} {root item : Item}
    {rest : List Nat} (hitems : stackItems? context name = some items)
    (hroot : items[first]? = some root) (hselect : select memory.heap root rest = .ok item) :
    Selects frame context memory presentation (.stack name (first :: rest))
      (.ofItem memory.heap (EvaluatePath.stack name (first :: rest)).text
        (some (EvaluatePath.stack name (first :: rest)).text) item)
  | slot {name : String} {root item : Item} {indices : List Nat}
    (hroot : frame.localNamed context memory.heap name = some root)
    (hselect : select memory.heap root indices = .ok item) :
    Selects frame context memory presentation (.slot name indices)
      (.ofItem memory.heap (EvaluatePath.slot name indices).text
        (some (EvaluatePath.slot name indices).text) item)
  | storageEntry {keyHash : UInt32} {entry : StorageEntry}
    (hentry : frame.storageEntry context memory keyHash = .ok entry) :
    Selects frame context memory presentation (.storageEntry keyHash)
      (.node ⟨.storageEntry entry, (EvaluatePath.storageEntry keyHash).text,
        some (EvaluatePath.storageEntry keyHash).text⟩)
  | storage {keyHash : UInt32} {entry : StorageEntry} (half : StorageField)
    (hentry : frame.storageEntry context memory keyHash = .ok entry) :
    Selects frame context memory presentation (.storage keyHash half)
      (.node ⟨.bytes (match half with | .key => entry.key | .value => entry.value)
        presentation.hashStorageBuffers, (EvaluatePath.storage keyHash half).text,
        some (EvaluatePath.storage keyHash half).text⟩)

variable {frame : Frame} {context : Context} {memory : Memory} {presentation : Presentation}
  {path : EvaluatePath} {child : Child}

theorem evaluate_of_selects (h : frame.Selects context memory presentation path child) :
    frame.evaluate context memory presentation path = .ok child := by
  cases h with
  | stack hitems => simp only [evaluate, hitems]
  | stackItem hitems hroot hselect =>
    simp only [evaluate, hitems, hroot, hselect]
    rfl
  | slot hroot hselect =>
    simp only [evaluate, hroot, hselect]
    rfl
  | storageEntry hentry =>
    simp only [evaluate, hentry]
    rfl
  | storage half hentry =>
    simp only [evaluate, hentry]
    rfl

theorem selects_of_evaluate (h : frame.evaluate context memory presentation path = .ok child) :
    frame.Selects context memory presentation path child := by
  cases path with
  | stack name indices =>
    simp only [evaluate] at h
    cases hitems : stackItems? context name with
    | none => rw [hitems] at h; cases h
    | some items =>
      rw [hitems] at h
      cases indices with
      | nil =>
        cases h
        exact .stack hitems
      | cons first rest =>
        simp only at h
        cases hroot : items[first]? with
        | none => rw [hroot] at h; cases h
        | some root =>
          rw [hroot] at h
          simp only at h
          cases hselect : select memory.heap root rest with
          | error e => rw [hselect] at h; cases h
          | ok item =>
            rw [hselect] at h
            cases h
            exact .stackItem hitems hroot hselect
  | slot name indices =>
    simp only [evaluate] at h
    cases hroot : frame.localNamed context memory.heap name with
    | none => rw [hroot] at h; cases h
    | some root =>
      rw [hroot] at h
      simp only at h
      cases hselect : select memory.heap root indices with
      | error e => rw [hselect] at h; cases h
      | ok item =>
        rw [hselect] at h
        cases h
        exact .slot hroot hselect
  | storageEntry keyHash =>
    simp only [evaluate] at h
    cases hentry : frame.storageEntry context memory keyHash with
    | error e => rw [hentry] at h; cases h
    | ok entry =>
      rw [hentry] at h
      cases h
      exact .storageEntry hentry
  | storage keyHash half =>
    simp only [evaluate] at h
    cases hentry : frame.storageEntry context memory keyHash with
    | error e => rw [hentry] at h; cases h
    | ok entry =>
      rw [hentry] at h
      cases h
      exact .storage half hentry


/-- What a path selects bears the text of the path, as its name and as its path. -/
theorem Selects.path?_eq (h : frame.Selects context memory presentation path child) :
    child.path? = some path.text ∧ child.named path.text = child := by
  cases h with
  | stack hitems => exact ⟨rfl, rfl⟩
  | stackItem hitems hroot hselect => exact ⟨Child.path?_ofItem .., Child.named_ofItem ..⟩
  | slot hroot hselect => exact ⟨Child.path?_ofItem .., Child.named_ofItem ..⟩
  | storageEntry hentry => exact ⟨rfl, rfl⟩
  | storage half hentry => exact ⟨rfl, rfl⟩

theorem stackItems?_eq_some {name : String} {items : List Item}
    (h : stackItems? context name = some items) :
    (name = evaluationStackName ∧ items = context.evaluationStack.reverse) ∨
      (name = altStackName ∧ items = context.altStack.reverse) := by
  unfold stackItems? at h
  split at h
  · next hname =>
    cases h
    exact .inl ⟨hname, rfl⟩
  split at h
  · next hname =>
    cases h
    exact .inr ⟨hname, rfl⟩
  · cases h

theorem canonical_stack {name : String} {items : List Item} {indices : List Nat}
    (h : stackItems? context name = some items) (hlt : ∀ i ∈ indices, i < Decimal.limit64) :
    (EvaluatePath.stack name indices).Canonical := by
  have hname : EvaluatePath.isEvaluable name.toList = true ∧ name ≠ EvaluatePath.storageRoot := by
    rcases stackItems?_eq_some h with ⟨rfl, -⟩ | ⟨rfl, -⟩ <;> decide
  exact ⟨hname.1, hlt, fun hroot => absurd hroot hname.2⟩

theorem length_le_of_stackItems? {name : String} {items : List Item} (hfits : context.Fits memory)
    (h : stackItems? context name = some items) : items.length ≤ Decimal.limit64 := by
  rcases stackItems?_eq_some h with ⟨-, rfl⟩ | ⟨-, rfl⟩
  · rw [List.length_reverse]
    exact hfits.evaluationStack
  · rw [List.length_reverse]
    exact hfits.altStack

theorem lt_of_mem_concat {indices : List Nat} {i bound : Nat} (h : ∀ j ∈ indices, j < bound)
    (hi : i < bound) : ∀ j ∈ indices ++ [i], j < bound := by
  intro j hj
  rcases List.mem_append.1 hj with hj | hj
  · exact h j hj
  · rw [List.mem_singleton.1 hj]
    exact hi

/-- One index further a path selects the element with that index. -/
theorem Selects.index {elements : Elements} {isStruct : Bool} {name : String} {p : Option String}
    {i : Nat} {item : Item} (hfits : context.Fits memory) (hpath : path.Canonical)
    (h : frame.Selects context memory presentation path child)
    (hchild : child = .node ⟨.sequence elements isStruct, name, p⟩)
    (hi : (elements.items memory.heap)[i]? = some item) :
    ∃ further, path.index? i = some further ∧ further.Canonical ∧
      frame.Selects context memory presentation further
        (.ofItem memory.heap further.text (some further.text) item) := by
  -- without this bound the longer path would not be read back
  have hlt : i < (elements.items memory.heap).length := (List.getElem?_eq_some_iff.1 hi).1
  cases h with
  | stack hitems =>
    cases hchild
    have hlength := length_le_of_stackItems? hfits hitems
    have hbound : i < Decimal.limit64 := Nat.lt_of_lt_of_le hlt hlength
    exact ⟨_, rfl, canonical_stack hitems (lt_of_mem_concat (by simp) hbound),
      .stackItem hitems hi rfl⟩
  | stackItem hitems hroot hselect =>
    obtain ⟨r, rfl, hr⟩ := Child.elements?_of_ofItem hchild
    have hbound : i < Decimal.limit64 := Nat.lt_of_lt_of_le hlt (hfits.items r)
    exact ⟨_, rfl, canonical_stack hitems (lt_of_mem_concat hpath.2.1 hbound),
      .stackItem hitems hroot (select_concat_eq_ok hselect hr hi)⟩
  | slot hroot hselect =>
    obtain ⟨r, rfl, hr⟩ := Child.elements?_of_ofItem hchild
    have hbound : i < Decimal.limit64 := Nat.lt_of_lt_of_le hlt (hfits.items r)
    exact ⟨_, rfl, ⟨hpath.1, lt_of_mem_concat hpath.2 hbound⟩,
      .slot hroot (select_concat_eq_ok hselect hr hi)⟩
  | storageEntry hentry => cases hchild
  | storage half hentry => cases hchild

/-- Only the path of a storage entry selects one, and the paths of its halves select them. -/
theorem Selects.half {entry : StorageEntry} {name : String} {p : Option String}
    (h : frame.Selects context memory presentation path child)
    (hchild : child = .node ⟨.storageEntry entry, name, p⟩) :
    ∃ keyHash, path = .storageEntry keyHash ∧
      frame.storageEntry context memory keyHash = .ok entry := by
  cases h with
  | stack hitems => cases hchild
  | stackItem hitems hroot hselect => exact absurd hchild Child.ofItem_ne_storageEntry
  | slot hroot hselect => exact absurd hchild Child.ofItem_ne_storageEntry
  | storageEntry hentry =>
    cases hchild
    exact ⟨_, rfl, hentry⟩
  | storage half hentry => cases hchild

/-! ## The names of locals and the hashes of keys -/

theorem localNamed_of_nodup {slot : Declaration} {r : ArrayRef} {item : Item} {i : Nat}
    (hnames : (frame.slots.map Declaration.name).Nodup) (hr : locals context = some r)
    (hslot : frame.slots[i]? = some slot) (hi : (memory.heap.items r)[i]? = some item) :
    frame.localNamed context memory.heap slot.name = some item := by
  obtain ⟨hlt, rfl⟩ := List.getElem?_eq_some_iff.1 hslot
  have hfind : frame.slots.findIdx? (fun d => d.name = (frame.slots[i]).name) = some i := by
    rw [List.findIdx?_eq_some_iff_getElem]
    refine ⟨hlt, by simp, ?_⟩
    -- a slot before this one has another name
    intro j hj
    have hne : frame.slots[j].name ≠ frame.slots[i].name :=
      List.pairwise_iff_getElem.1 (List.pairwise_map.1 hnames) j i (Nat.lt_trans hj hlt) hlt hj
    simpa using hne
  simp only [localNamed, hfind, hr]
  exact hi

theorem storageEntry_of_nodup {entry : StorageEntry} (hshown : frame.showsStorage = true)
    (hkeys : ((memory.storage context.scriptHash).map StorageEntry.keyHash).Nodup)
    (h : entry ∈ memory.storage context.scriptHash) :
    frame.storageEntry context memory entry.keyHash = .ok entry := by
  have hfind : (memory.storage context.scriptHash).find?
      (fun other => other.keyHash = entry.keyHash) = some entry := by
    cases hfound : (memory.storage context.scriptHash).find?
        (fun other => other.keyHash = entry.keyHash) with
    | none => simpa using List.find?_eq_none.1 hfound entry h
    | some other =>
      -- what is found has the hash of the entry, so it is the entry
      have hmem := List.mem_of_find?_eq_some hfound
      have hsame : other.keyHash = entry.keyHash := by simpa using List.find?_some hfound
      rw [List.inj_on_of_nodup_map hkeys hmem h hsame]
  simp only [storageEntry, if_pos hshown, hfind]

end Frame
end ScriptScope

import ScriptScope.DebugInfo.File
import ScriptScope.Proofs.Frame.Selection
import ScriptScope.Proofs.Session.Captions

/-!
# ScriptScope.Proofs.Frame.Shadowing

The paths that the locals of a frame are shown with. A local is shown under the name of its own
slot, while a path is looked up from the first slot on, and nothing keeps a file of debug
information from declaring a name twice. So a later local of the same name is shadowed by the first
one.

* `captionOf_getElem?_variablesIn`: what is shown for each local.
* `evaluateIn_of_findIdx?`: a declared name selects the local in the first slot under it.
* `evaluateIn_localVariables`: so the path of a local selects the first local that is shown with
  that path, which is the local itself wherever no two slots have one name.
-/

namespace ScriptScope

/-- The first stub with a path, and how many stubs are before it. -/
structure Stub.FirstAt (shown : List Stub) (p : String) (i : Nat) (first : Stub) : Prop where
  getElem? : shown[i]? = some first
  path : first.evaluatePath = some p
  before : ∀ k < i, ∀ other, shown[k]? = some other → other.evaluatePath ≠ some p

theorem slotPath?_eq_some_iff {slots : List Declaration} {i : Nat} {p : String} :
    slotPath? slots i = some p ↔
      (∃ d, slots[i]? = some d ∧ d.name = p) ∧ EvaluatePath.isEvaluable p.toList = true := by
  rw [slotPath?, Option.filter_eq_some_iff, Option.map_eq_some_iff]

/-- The first slot under a name that some slot has. -/
theorem exists_findIdx?_of_getElem? {slots : List Declaration} {i : Nat} {d : Declaration}
    (h : slots[i]? = some d) :
    ∃ j ≤ i, slots.findIdx? (fun e => e.name = d.name) = some j := by
  obtain ⟨hlt, hd⟩ := List.getElem?_eq_some_iff.1 h
  cases hfind : slots.findIdx? (fun e => e.name = d.name) with
  | none =>
    have hne := List.findIdx?_eq_none_iff.1 hfind slots[i] (List.getElem_mem hlt)
    simp [hd] at hne
  | some j =>
    refine ⟨j, ?_, rfl⟩
    obtain ⟨hj, -, hbefore⟩ := List.findIdx?_eq_some_iff_getElem.1 hfind
    by_contra hij
    have hne := hbefore i (Nat.lt_of_not_le hij)
    simp [hd] at hne

namespace Frame

variable {frame : Frame} {context : Context} {memory : Memory} {s t : Session} {stub : Stub}
  {i : Nat} {p : String} {r : ArrayRef} {item : Item}

/-- What is shown for a local: the item in its slot, under the name and the path of the slot. -/
def captionOf (frame : Frame) (heap : Heap) (item : Item) (i : Nat) : Caption :=
  item.caption heap (slotName frame.slots i) (slotPath? frame.slots i)

theorem map_caption_variablesIn (frame : Frame) (context : Context) (memory : Memory)
    (s : Session) :
    (frame.variablesIn context memory s).1.map Stub.caption =
      (Subject.localItems memory.heap (locals context)).mapIdx fun i item =>
        frame.captionOf memory.heap item i := by
  rw [variablesIn, Session.map_caption_presentAll]
  exact Container.map_caption_locals ..

theorem captionOf_getElem?_variablesIn
    (h : (frame.variablesIn context memory s).1[i]? = some stub) :
    ∃ r item, locals context = some r ∧ (memory.heap.items r)[i]? = some item ∧
      stub.caption = frame.captionOf memory.heap item i := by
  have hcaption : ((frame.variablesIn context memory s).1.map Stub.caption)[i]? =
      some stub.caption := by
    rw [List.getElem?_map, h]
    rfl
  rw [map_caption_variablesIn, List.getElem?_mapIdx, Option.map_eq_some_iff] at hcaption
  obtain ⟨item, hitem, hstub⟩ := hcaption
  cases hlocals : locals context with
  | none =>
    rw [hlocals] at hitem
    cases hitem
  | some r =>
    rw [hlocals] at hitem
    exact ⟨r, item, rfl, hitem, hstub.symm⟩

theorem getElem?_variablesIn (hlocals : locals context = some r)
    (hitem : (memory.heap.items r)[i]? = some item) :
    ∃ stub, (frame.variablesIn context memory s).1[i]? = some stub ∧
      stub.caption = frame.captionOf memory.heap item i := by
  have hcaption : ((frame.variablesIn context memory s).1.map Stub.caption)[i]? =
      some (frame.captionOf memory.heap item i) := by
    rw [map_caption_variablesIn, List.getElem?_mapIdx, hlocals]
    show ((memory.heap.items r)[i]?).map _ = _
    rw [hitem]
    rfl
  rw [List.getElem?_map, Option.map_eq_some_iff] at hcaption
  exact hcaption

/-- A declared name selects the local in the first slot under it. -/
theorem evaluateIn_of_findIdx? (hname : EvaluatePath.isEvaluable p.toList = true)
    (hfirst : frame.slots.findIdx? (fun d => d.name = p) = some i)
    (hlocals : locals context = some r) (hitem : (memory.heap.items r)[i]? = some item) :
    ∃ again after, frame.evaluateIn context memory t p = .ok (again, after) ∧
      again.caption = item.caption memory.heap p (some p) := by
  have hparse : EvaluatePath.parse p = .ok (.slot p []) := by
    have hcanonical : (EvaluatePath.slot p []).Canonical := ⟨hname, by simp⟩
    have hread := EvaluatePath.parse_text hcanonical
    rwa [EvaluatePath.text_slot] at hread
  have hnamed : frame.localNamed context memory.heap p = some item := by
    rw [localNamed, hfirst, hlocals]
    exact hitem
  have hchild : frame.evaluateText context memory t.presentation p =
      .ok (.ofItem memory.heap p (some p) item) := by
    simp only [evaluateText, hparse, evaluate, hnamed, EvaluatePath.text_slot]
    rfl
  refine ⟨_, _, by rw [evaluateIn, hchild]; rfl, ?_⟩
  have hcaption := @Session.map_caption_presentAll memory t
    [Child.ofItem memory.heap p (some p) item]
  rw [List.map_singleton, Child.caption_ofItem] at hcaption
  exact (List.cons.inj hcaption).1

/-- A local is shown with a path if and only if its slot is declared under a name that can head
one. -/
theorem evaluatePath_iff (h : (frame.variablesIn context memory s).1[i]? = some stub) :
    stub.evaluatePath = some p ↔
      (∃ d, frame.slots[i]? = some d ∧ d.name = p) ∧ EvaluatePath.isEvaluable p.toList = true := by
  obtain ⟨r, item, -, -, hcaption⟩ := captionOf_getElem?_variablesIn h
  have hpath : stub.evaluatePath = slotPath? frame.slots i := congrArg Caption.path hcaption
  rw [hpath, slotPath?_eq_some_iff]

theorem firstAt_of_findIdx? (hname : EvaluatePath.isEvaluable p.toList = true)
    (hfirst : frame.slots.findIdx? (fun d => d.name = p) = some i)
    (h : (frame.variablesIn context memory s).1[i]? = some stub) :
    Stub.FirstAt (frame.variablesIn context memory s).1 p i stub := by
  obtain ⟨hlt, hp, hbefore⟩ := List.findIdx?_eq_some_iff_getElem.1 hfirst
  refine ⟨h, ?_, ?_⟩
  · rw [evaluatePath_iff h]
    exact ⟨⟨frame.slots[i], List.getElem?_eq_getElem hlt, by simpa using hp⟩, hname⟩
  · intro k hk other hother hpath
    rw [evaluatePath_iff hother] at hpath
    obtain ⟨⟨d, hd, hdname⟩, -⟩ := hpath
    obtain ⟨hklt, rfl⟩ := List.getElem?_eq_some_iff.1 hd
    have hne := hbefore k hk
    simp [hdname] at hne

/-- The path of a local selects the first local that is shown with it. -/
theorem evaluateIn_firstAt (h : (frame.variablesIn context memory s).1[i]? = some stub)
    (hpath : stub.evaluatePath = some p) :
    ∃ j ≤ i, ∃ first, Stub.FirstAt (frame.variablesIn context memory s).1 p j first ∧
      ∃ again after, frame.evaluateIn context memory t p = .ok (again, after) ∧
        again.evaluatePath = some p ∧ again.typeLabel = first.typeLabel ∧
        again.value = first.value := by
  obtain ⟨⟨d, hd, rfl⟩, hname⟩ := (evaluatePath_iff h).1 hpath
  obtain ⟨j, hj, hfirst⟩ := exists_findIdx?_of_getElem? hd
  -- a slot before one that has a local has a local too
  obtain ⟨r, _, hlocals, hitem, -⟩ := captionOf_getElem?_variablesIn h
  obtain ⟨hlt, -⟩ := List.getElem?_eq_some_iff.1 hitem
  have hlocal := List.getElem?_eq_getElem (Nat.lt_of_le_of_lt hj hlt)
  obtain ⟨first, hshown, hcaption⟩ :=
    @getElem?_variablesIn frame context memory s j r _ hlocals hlocal
  obtain ⟨again, after, heval, hagain⟩ :=
    evaluateIn_of_findIdx? (t := t) hname hfirst hlocals hlocal
  refine ⟨j, hj, first, firstAt_of_findIdx? hname hfirst hshown, again, after, heval, ?_, ?_, ?_⟩
  · exact congrArg Caption.path hagain
  · exact (congrArg Caption.typeLabel hagain).trans (congrArg Caption.typeLabel hcaption).symm
  · exact (congrArg Caption.value hagain).trans (congrArg Caption.value hcaption).symm

/-- No two slots that have a local are declared under one name that can head a path. -/
def Unshadowed (frame : Frame) (locals : Nat) : Prop :=
  ∀ (i j : Nat) d e, i < locals → j < locals → frame.slots[i]? = some d →
    frame.slots[j]? = some e → d.name = e.name →
    EvaluatePath.isEvaluable d.name.toList = true → i = j

theorem unshadowed_iff :
    frame.Unshadowed (frame.variablesIn context memory s).1.length ↔
      ∀ (i j : Nat) a b p, (frame.variablesIn context memory s).1[i]? = some a →
        (frame.variablesIn context memory s).1[j]? = some b →
        a.evaluatePath = some p → b.evaluatePath = some p → i = j := by
  constructor
  · intro h i j a b p ha hb hpa hpb
    obtain ⟨⟨d, hd, hdname⟩, hname⟩ := (evaluatePath_iff ha).1 hpa
    obtain ⟨⟨e, he, hename⟩, -⟩ := (evaluatePath_iff hb).1 hpb
    rw [← hdname] at hname hename
    exact h i j d e (List.getElem?_eq_some_iff.1 ha).1 (List.getElem?_eq_some_iff.1 hb).1 hd he
      hename.symm hname
  · intro h i j d e hi hj hd he hsame hname
    have ha := List.getElem?_eq_getElem hi
    have hb := List.getElem?_eq_getElem hj
    exact h i j _ _ d.name ha hb ((evaluatePath_iff ha).2 ⟨⟨d, hd, rfl⟩, hname⟩)
      ((evaluatePath_iff hb).2 ⟨⟨e, he, hsame.symm⟩, hname⟩)

theorem evaluateIn_localVariables (frame : Frame) (context : Context) (memory : Memory)
    (s t : Session) :
    let shown := (frame.variablesIn context memory s).1
    (∀ (i : Nat) stub p, shown[i]? = some stub → stub.evaluatePath = some p →
      ∃ j ≤ i, ∃ first, Stub.FirstAt shown p j first ∧
        ∃ again after, frame.evaluateIn context memory t p = .ok (again, after) ∧
          again.evaluatePath = some p ∧ again.typeLabel = first.typeLabel ∧
          again.value = first.value) ∧
    (frame.Unshadowed shown.length ↔
      ∀ (i j : Nat) a b p, shown[i]? = some a → shown[j]? = some b →
        a.evaluatePath = some p → b.evaluatePath = some p → i = j) := by
  intro shown
  refine ⟨?_, unshadowed_iff⟩
  intro i stub p hstub hpath
  exact evaluateIn_firstAt hstub hpath

/-- A block-scoped local under the name of a parameter, beside one that no other shadows. -/
theorem evaluateIn_localVariables_scoped :
    let method : Method :=
      ⟨"", "", "", 0, 9, [⟨"x", ""⟩], [⟨"y", ""⟩, ⟨"x", ""⟩], none, [], .zero⟩
    let frame : Frame := ⟨none, some method, true, true⟩
    let context : Context := ⟨.zero, 0, [], [], [.struct ⟨0⟩]⟩
    let memory : Memory :=
      ⟨⟨#[[.integer 7, .bytes [1, 2], .boolean true]], #[]⟩, fun _ => []⟩
    let s := Session.start {}
    let x : Stub := ⟨"x", "Integer", "7", 0, none, none, some "x"⟩
    let y : Stub := ⟨"y", "Byte[2]", "0x0102", 1, some 2, none, some "y"⟩
    let shadowed : Stub := ⟨"x", "Boolean", "true", 0, none, none, some "x"⟩
    (frame.variablesIn context memory s).1 = [x, y, shadowed] ∧
      (∃ j ≤ 2, ∃ first, Stub.FirstAt [x, y, shadowed] "x" j first ∧
        ∃ again after, frame.evaluateIn context memory s "x" = .ok (again, after) ∧
          again.evaluatePath = some "x" ∧ again.typeLabel = first.typeLabel ∧
          again.value = first.value) ∧
      ¬frame.Unshadowed 3 := by
  intro method frame context memory s x y shadowed
  have hshown : (frame.variablesIn context memory s).1 = [x, y, shadowed] := by decide +kernel
  obtain ⟨hselect, hunshadowed⟩ := evaluateIn_localVariables frame context memory s s
  simp only [hshown] at hselect hunshadowed
  refine ⟨hshown, hselect 2 shadowed "x" rfl rfl, ?_⟩
  intro h
  cases hunshadowed.1 h 0 2 x shadowed "x" rfl rfl rfl rfl

/-- Two locals under one name, which a file of debug information may well declare: the path of the
second one selects the first. -/
theorem not_evaluateIn_own_local :
    let text := r#"[null, "", [], [["m", "", "Main", "0-9", ["x,Integer"], null, ["x,Integer"]]]]"#
    let hash : ScriptHash := ⟨List.replicate 20 7, rfl⟩
    let context : Context := ⟨hash, 3, [], [], [.array ⟨0⟩]⟩
    let memory : Memory := ⟨⟨#[[.integer 1, .integer 2]], #[]⟩, fun _ => []⟩
    let s := Session.start {}
    ∃ info, DebugInfo.read text = .ok info ∧
      let frame := attach context (some (info.withScriptHash hash)) true true
      let shown := frame.variablesIn context memory s
      (¬∀ (i : Nat) stub p, shown.1[i]? = some stub → stub.evaluatePath = some p →
        ∃ again after, frame.evaluateIn context memory shown.2 p = .ok (again, after) ∧
          again.typeLabel = stub.typeLabel ∧ again.value = stub.value) ∧
      ¬∀ (i j : Nat) a b p, shown.1[i]? = some a → shown.1[j]? = some b →
        a.evaluatePath = some p → b.evaluatePath = some p → i = j := by
  intro text hash context memory s
  let x : Declaration := ⟨"x", "Integer"⟩
  let main : Method := ⟨"m", "", "Main", 0, 9, [x], [x], none, [], .zero⟩
  let info : DebugInfo := ⟨.zero, "", [], [main]⟩
  have hfile : (Json.parse text).bind DebugFile.ofJson? =
      some ⟨none, "", [], [⟨"m", "", "Main", "0-9", ["x,Integer"], none, ["x,Integer"], []⟩]⟩ := by
    rw [Json.parse, String.toList_ofList]
    decide +kernel
  have hread : DebugInfo.read text = .ok info := by
    rw [DebugInfo.read, hfile]
    show Except.ok (⟨.zero, "", [],
      [{ main with sequencePoints := DebugFile.sortPoints [] }]⟩ : DebugInfo) = _
    rw [DebugFile.sortPoints, List.mergeSort_nil]
  let frame := attach context (some (info.withScriptHash hash)) true true
  refine ⟨info, hread, ?_, ?_⟩
  · intro h
    obtain ⟨again, after, heval, -, hvalue⟩ :=
      h 1 ⟨"x", "Integer", "2", 0, none, none, some "x"⟩ "x" (by decide +kernel) rfl
    obtain ⟨first, _, hfirst, hcaption⟩ := evaluateIn_of_findIdx? (by decide +kernel)
      (show frame.slots.findIdx? (fun d => d.name = "x") = some 0 by decide)
      (show locals context = some ⟨0⟩ from rfl)
      (show (memory.heap.items ⟨0⟩)[0]? = some (.integer 1) from rfl)
    rw [hfirst] at heval
    cases heval
    have hone : "1" = "2" := (congrArg Caption.value hcaption).symm.trans hvalue
    revert hone
    decide
  · intro h
    cases h 0 1 ⟨"x", "Integer", "1", 0, none, none, some "x"⟩
      ⟨"x", "Integer", "2", 0, none, none, some "x"⟩ "x" (by decide +kernel) (by decide +kernel)
      rfl rfl

end Frame
end ScriptScope

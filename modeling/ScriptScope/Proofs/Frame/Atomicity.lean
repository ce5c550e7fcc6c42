import ScriptScope.Proofs.Frame.Selection
import ScriptScope.Proofs.Session.Handles

/-!
# ScriptScope.Proofs.Frame.Atomicity

An evaluation that fails half-way takes no handle. `Steps` are programs on a table of handles where
a failure does not undo what was done before it, and `evaluateSteps` is the evaluation as such a
program: the path is read, the root is looked up, the indices are followed one by one, and what is
found is shown.

* `evaluateSteps_eq`: all that may fail comes before the only step that touches the table.
* `evaluateIn_atomic`: so an evaluation leaves the table as it is, or binds the next handle to the
  container whose stub it returns, and nothing else.
-/

namespace ScriptScope

open Session (WordTable)

/-! ## Tables of handles -/

/-- What can be told of a table of handles: the handle to be given next, and the containers behind
those that were given. -/
structure Holdings where
  next : Int
  behind : Int → Container → Prop

/-- The next handle, which nothing was behind, is now that of a container, and nothing else has
changed. -/
structure Holdings.Gives (memory : Memory) (limit : Option Nat) (before after : Holdings)
    (stub : Stub) (c : Container) : Prop where
  stub_eq : stub = c.stub memory limit before.next
  handle : stub.handle = before.next
  next : after.next = before.next + 1
  free : ∀ other, ¬ before.behind before.next other
  behind : ∀ handle other, after.behind handle other ↔
    before.behind handle other ∨ handle = before.next ∧ other = c

def Session.holdings (s : Session) : Holdings :=
  ⟨s.nextHandle, fun handle c => s.get? handle = some c⟩

def Session.WordTable.holdings (t : WordTable) : Holdings :=
  ⟨t.next.toInt, fun handle c => ∃ word, word.toInt = handle ∧ t.containers.find? word = some c⟩

/-- What an evaluation may do to a table: nothing where it fails or where nothing is below the value
that it shows. -/
inductive Atomic {σ : Type} (holdings : σ → Holdings) (memory : Memory) (limit : Option Nat)
    (before : σ) : Except EvalError Stub → σ → Prop where
  | failed (e : EvalError) : Atomic holdings memory limit before (.error e) before
  | leaf {stub : Stub} (handle : stub.handle = 0) (indexed : stub.indexedCount = none)
    (named : stub.namedCount = none) : Atomic holdings memory limit before (.ok stub) before
  | given {stub : Stub} {after : σ} {c : Container}
    (h : (holdings before).Gives memory limit (holdings after) stub c) :
    Atomic holdings memory limit before (.ok stub) after

/-- A table with one more pair, whose handle nothing was behind. -/
theorem inserted_eq_some_iff {κ : Type} [DecidableEq κ] {find : κ → Option Container}
    {next handle : κ} {c other : Container} (hfree : find next = none) :
    (if handle = next then some c else find handle) = some other ↔
      find handle = some other ∨ handle = next ∧ other = c := by
  by_cases he : handle = next
  · subst he
    simp [hfree, eq_comm]
  · simp [he]

namespace Session

theorem gives_register (memory : Memory) (s : Session) (c : Container) :
    s.holdings.Gives memory s.presentation.byteLimit (s.register memory c).2.holdings
      (s.register memory c).1 c where
  stub_eq := rfl
  handle := rfl
  next := by
    simp only [holdings, nextHandle_register]
    omega
  free other := by
    simp only [holdings, get?_nextHandle, reduceCtorEq, not_false_eq_true]
  behind handle other := by
    simp only [holdings, get?_register]
    exact inserted_eq_some_iff s.get?_nextHandle

theorem atomic_present (memory : Memory) (s : Session) (child : Child) :
    Atomic holdings memory s.presentation.byteLimit s (.ok (s.present memory child).1)
      (s.present memory child).2 := by
  cases child with
  | leaf name typeLabel value path => exact .leaf rfl rfl rfl
  | node c => exact .given (gives_register memory s c)

namespace WordTable

variable {t t' : WordTable} {memory : Memory} {limit : Option Nat} {c : Container}
  {handle : Int64} {stub : Stub}

theorem register?_eq_some_iff : t.register? c = some (handle, t') ↔
    t.next ≠ Int64.maxValue ∧ t.containers.find? t.next = none ∧ handle = t.next ∧
      t' = ⟨t.next + 1, t.containers.insert t.next c⟩ := by
  rw [register?]
  split
  · next h => simp [h]
  · next h =>
    cases hfree : t.containers.find? t.next with
    | some other => simp
    | none => simp [h, eq_comm]

/-- The counter does not wrap before its end. -/
theorem toInt_succ (h : handle ≠ Int64.maxValue) : (handle + 1).toInt = handle.toInt + 1 := by
  have hmin := Int64.le_toInt handle
  have hmax := Int64.toInt_le handle
  have hne : handle.toInt ≠ Int64.maxValue.toInt := fun he => h (Int64.toInt_inj.1 he)
  rw [Int64.toInt_maxValue] at hmax hne
  rw [Int64.toInt_add, Int64.toInt_one, Int.bmod_eq_of_le (by omega) (by omega)]

theorem gives_register? (h : t.register? c = some (handle, t')) :
    t.holdings.Gives memory limit t'.holdings (c.stub memory limit handle.toInt) c := by
  obtain ⟨hmax, hfree, rfl, rfl⟩ := register?_eq_some_iff.1 h
  refine ⟨rfl, rfl, toInt_succ hmax, ?_, ?_⟩
  · rintro other ⟨word, hword, hother⟩
    obtain rfl := Int64.toInt_inj.1 hword
    rw [hfree] at hother
    cases hother
  · intro number other
    simp only [holdings, OrderedMap.find?_insert, inserted_eq_some_iff hfree, and_or_left,
      exists_or]
    constructor
    · rintro (hbefore | ⟨word, rfl, rfl, rfl⟩)
      · exact .inl hbefore
      · exact .inr ⟨rfl, rfl⟩
    · rintro (hbefore | ⟨rfl, rfl⟩)
      · exact .inl hbefore
      · exact .inr ⟨t.next, rfl, rfl, rfl⟩

theorem atomic_present? {child : Child} (h : t.present? memory limit child = some (stub, t')) :
    Atomic holdings memory limit t (.ok stub) t' := by
  cases child with
  | leaf name typeLabel value path =>
    cases h
    exact .leaf rfl rfl rfl
  | node c =>
    obtain ⟨⟨handle, next⟩, hgiven, hresult⟩ := Option.map_eq_some_iff.1 h
    cases hresult
    exact .given (gives_register? hgiven)

end WordTable
end Session

/-! ## Steps -/

/-- Programs on a table of handles. What was done to the table before a failure stays done; there is
no result where a registration gives up. -/
abbrev Steps := ExceptT EvalError (StateT WordTable Option)

namespace Steps

/-- A step that does not touch the table. -/
def known (result : Except EvalError α) : Steps α :=
  liftExcept result

def required (found : Option α) (e : EvalError) : Steps α :=
  match found with
  | none => known (.error e)
  | some a => known (.ok a)

/-- Shows a child; a container takes a handle. -/
def present (memory : Memory) (limit : Option Nat) (child : Child) : Steps Stub :=
  ExceptT.lift fun t => t.present? memory limit child

/-- Follows indices into nested arrays and structs. -/
def walk (heap : Heap) (item : Item) (indices : List Nat) : Steps Item :=
  indices.foldlM (fun item i => known (indexInto heap item i)) item

theorem known_ok_bind (a : α) (f : α → Steps β) : known (.ok a) >>= f = f a := rfl

theorem walk_eq (heap : Heap) (item : Item) (indices : List Nat) :
    walk heap item indices = known (select heap item indices) := by
  induction indices generalizing item with
  | nil => rfl
  | cons i rest ih =>
    rw [walk, select, List.foldlM_cons, List.foldlM_cons]
    cases indexInto heap item i with
    | error e => rfl
    | ok found => exact ih found

theorem present_run {memory : Memory} {limit : Option Nat} (child : Child) (t : WordTable) :
    (present memory limit child).run.run t =
      (t.present? memory limit child).map fun shown => (.ok shown.1, shown.2) := by
  simp only [present, ExceptT.run_lift, StateT.run_map]
  rfl

end Steps

namespace Frame

variable (frame : Frame) (context : Context) (memory : Memory) (presentation : Presentation)

/-- The steps that lead to what a path selects, and show it. -/
def evaluatePathSteps (path : EvaluatePath) : Steps Stub :=
  let present := Steps.present memory presentation.byteLimit
  let text := path.text
  match path with
  | .stack stack indices => do
    let items ← .required (stackItems? context stack) (.unknownStack stack)
    match indices with
    | [] => present (.node (stackSnapshot items text text))
    | first :: rest => do
      let item ← .required items[first]? (.indexOutOfRange first items.length)
      let found ← .walk memory.heap item rest
      present (.ofItem memory.heap text (some text) found)
  | .slot name indices => do
    let position ← .required (frame.slots.findIdx? fun d => d.name = name) (.unknownVariable name)
    let r ← .required (locals context) (.unknownVariable name)
    let item ← .required (memory.heap.items r)[position]? (.unknownVariable name)
    let found ← .walk memory.heap item indices
    present (.ofItem memory.heap text (some text) found)
  | .storageEntry keyHash => do
    let entry ← .known (frame.storageEntry context memory keyHash)
    present (.node ⟨.storageEntry entry, text, some text⟩)
  | .storage keyHash half => do
    let entry ← .known (frame.storageEntry context memory keyHash)
    let content := match half with
      | .key => entry.key
      | .value => entry.value
    present (.node ⟨.bytes content presentation.hashStorageBuffers, text, some text⟩)

/-- The steps of an evaluation, in their order. -/
def evaluateSteps (text : String) : Steps Stub := do
  let path ← .known ((EvaluatePath.parse text).mapError (.malformed text))
  frame.evaluatePathSteps context memory presentation path

theorem evaluatePathSteps_eq (path : EvaluatePath) :
    frame.evaluatePathSteps context memory presentation path =
      .known (frame.evaluate context memory presentation path) >>=
        Steps.present memory presentation.byteLimit := by
  -- a lookup that fails ends both sides; behind the last one only the showing is left
  cases path with
  | stack stack indices =>
    simp only [evaluatePathSteps, evaluate]
    cases stackItems? context stack with
    | none => rfl
    | some items =>
      cases indices with
      | nil => rfl
      | cons first rest =>
        simp only [Steps.required, Steps.known_ok_bind]
        cases items[first]? with
        | none => rfl
        | some item =>
          simp only [Steps.known_ok_bind, Steps.walk_eq]
          cases select memory.heap item rest <;> rfl
  | slot name indices =>
    simp only [evaluatePathSteps, evaluate, localNamed]
    cases frame.slots.findIdx? (fun d => d.name = name) with
    | none => rfl
    | some position =>
      cases locals context with
      | none => rfl
      | some r =>
        simp only [Steps.required, Steps.known_ok_bind, Option.bind_eq_bind, Option.bind_some]
        cases (memory.heap.items r)[position]? with
        | none => rfl
        | some item =>
          simp only [Steps.known_ok_bind, Steps.walk_eq]
          cases select memory.heap item indices <;> rfl
  | storageEntry keyHash =>
    simp only [evaluatePathSteps, evaluate]
    cases frame.storageEntry context memory keyHash <;> rfl
  | storage keyHash half =>
    simp only [evaluatePathSteps, evaluate]
    cases frame.storageEntry context memory keyHash <;> rfl

/-- All that may fail comes before the only step that touches the table. -/
theorem evaluateSteps_eq (text : String) :
    frame.evaluateSteps context memory presentation text =
      .known (frame.evaluateText context memory presentation text) >>=
        Steps.present memory presentation.byteLimit := by
  rw [evaluateSteps, evaluateText]
  cases EvaluatePath.parse text with
  | error fault => rfl
  | ok path => exact frame.evaluatePathSteps_eq context memory presentation path

variable {frame context memory presentation} {text : String} {t t' : WordTable} {s : Session}
  {outcome : Except EvalError Stub}

theorem evaluateSteps_of_error {e : EvalError}
    (h : frame.evaluateText context memory presentation text = .error e) (t : WordTable) :
    (frame.evaluateSteps context memory presentation text).run.run t = some (.error e, t) := by
  rw [evaluateSteps_eq, h]
  rfl

theorem evaluateSteps_of_ok {child : Child}
    (h : frame.evaluateText context memory presentation text = .ok child) (t : WordTable) :
    (frame.evaluateSteps context memory presentation text).run.run t =
      (t.present? memory presentation.byteLimit child).map fun shown =>
        (.ok shown.1, shown.2) := by
  rw [evaluateSteps_eq, h]
  exact Steps.present_run child t

theorem evaluateIn_of_evaluateText {child : Child}
    (h : frame.evaluateText context memory s.presentation text = .ok child) :
    frame.evaluateIn context memory s text = .ok (s.present memory child) := by
  rw [evaluateIn, h]
  rfl

theorem atomic_evaluateSteps
    (h : (frame.evaluateSteps context memory presentation text).run.run t = some (outcome, t')) :
    Atomic WordTable.holdings memory presentation.byteLimit t outcome t' := by
  cases heval : frame.evaluateText context memory presentation text with
  | error e =>
    rw [evaluateSteps_of_error heval] at h
    cases h
    exact .failed e
  | ok child =>
    rw [evaluateSteps_of_ok heval] at h
    obtain ⟨⟨stub, after⟩, hshown, hresult⟩ := Option.map_eq_some_iff.1 h
    cases hresult
    exact WordTable.atomic_present? hshown

theorem evaluateIn_atomic (frame : Frame) (context : Context) (memory : Memory) (text : String) :
    (∀ presentation t outcome t',
      (frame.evaluateSteps context memory presentation text).run.run t = some (outcome, t') →
      Atomic WordTable.holdings memory presentation.byteLimit t outcome t') ∧
    ∀ s : Session,
      match frame.evaluateIn context memory s text with
      | .error e =>
        s.answer memory (.evaluateText frame context text) = (.error (.evaluation e), s) ∧
        ∀ t, (frame.evaluateSteps context memory s.presentation text).run.run t =
          some (.error e, t)
      | .ok (stub, after) =>
        s.answer memory (.evaluateText frame context text) = (.ok [stub], after) ∧
        after.presentation = s.presentation ∧
        Atomic Session.holdings memory s.presentation.byteLimit s (.ok stub) after ∧
        ∀ t : WordTable, t.Simulates s → after.nextHandle < 2 ^ 63 →
          ∃ t', (frame.evaluateSteps context memory s.presentation text).run.run t =
              some (.ok stub, t') ∧
            t'.Simulates after := by
  refine ⟨fun presentation t outcome t' h => atomic_evaluateSteps h, fun s => ?_⟩
  cases heval : frame.evaluateText context memory s.presentation text with
  | error e =>
    have hresult : frame.evaluateIn context memory s text = .error e := by
      rw [evaluateIn, heval]
      rfl
    simp only [Session.answer, hresult]
    exact ⟨trivial, evaluateSteps_of_error heval⟩
  | ok child =>
    simp only [Session.answer, evaluateIn_of_evaluateText heval]
    refine ⟨rfl, Session.presentation_present memory s child, s.atomic_present memory child, ?_⟩
    intro t hsim hlt
    obtain ⟨t', hshown, hafter⟩ := hsim.present memory child hlt
    refine ⟨t', ?_, hafter⟩
    rw [evaluateSteps_of_ok heval, hshown]
    rfl

/-- Three steps lead into an integer, which has no elements; the byte string beside it takes the
first handle. -/
theorem evaluateIn_atomic_nested :
    let memory : Memory := ⟨⟨#[[.integer 7, .bytes [1, 2]]], #[]⟩, fun _ => []⟩
    let context : Context := ⟨.zero, 0, [], [.array ⟨0⟩], []⟩
    let frame : Frame := ⟨none, none, true, true⟩
    let s := Session.start {}
    let t := WordTable.start
    let run := fun text => (frame.evaluateSteps context memory s.presentation text).run.run t
    let bytes : Stub :=
      ⟨"$evalStack[0][1]", "Byte[2]", "0x0102", 1, some 2, none, some "$evalStack[0][1]"⟩
    run "$evalStack[0][0][0]" = some (.error (.notIndexable "Integer"), t) ∧
      ∃ after t', frame.evaluateIn context memory s "$evalStack[0][1]" = .ok (bytes, after) ∧
        run "$evalStack[0][1]" = some (.ok bytes, t') ∧ t'.Simulates after ∧
        Atomic WordTable.holdings memory s.presentation.byteLimit t (.ok bytes) t' := by
  intro memory context frame s t run bytes
  have hitems : stackItems? context "evalStack" = some [.array ⟨0⟩] := rfl
  have hfailed : frame.evaluateIn context memory s "$evalStack[0][0][0]" =
      .error (.notIndexable "Integer") := by
    have htext : (EvaluatePath.stack "evalStack" [0, 0, 0]).text = "$evalStack[0][0][0]" := by
      decide +kernel
    rw [evaluateIn, evaluateText, ← htext, EvaluatePath.parse_text (canonical_stack hitems ?_)]
    · rfl
    · decide
  let after := (s.register memory ⟨.bytes [1, 2] false, bytes.name, some bytes.name⟩).2
  have hshown : frame.evaluateIn context memory s "$evalStack[0][1]" = .ok (bytes, after) := by
    have htext : (EvaluatePath.stack "evalStack" [0, 1]).text = "$evalStack[0][1]" := by
      decide +kernel
    have hstub : (s.register memory ⟨.bytes [1, 2] false, bytes.name, some bytes.name⟩).1 =
        bytes := by decide +kernel
    rw [evaluateIn, evaluateText, ← hstub, ← htext,
      EvaluatePath.parse_text (canonical_stack hitems ?_)]
    · rfl
    · decide
  have hinto := (evaluateIn_atomic frame context memory "$evalStack[0][0][0]").2 s
  obtain ⟨hatomic, hbeside⟩ := evaluateIn_atomic frame context memory "$evalStack[0][1]"
  replace hbeside := hbeside s
  rw [hfailed] at hinto
  rw [hshown] at hbeside
  obtain ⟨-, -, -, hsteps⟩ := hbeside
  obtain ⟨t', hrun, hsim⟩ := hsteps t (WordTable.simulates_start {}) (by decide)
  exact ⟨hinto.2 t, after, t', hshown, hrun, hsim, hatomic _ t _ t' hrun⟩

end Frame
end ScriptScope

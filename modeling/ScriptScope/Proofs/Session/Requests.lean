import ScriptScope.Frame

/-!
# ScriptScope.Proofs.Session.Requests

Everything that a client asks of a session, as one type of requests.

A request that is not refused shows a list of children (`Request.shown`), and showing children is
all that it does to the session: `answer_eq`. So a fact about every request is a fact about
`presentAll`, of which three things are to be known.

* `presentAll_session`: the containers among the children are added at the end of the live ones.
* `handlesOf_presentAll`: they get the next handles in their order; leaves get none.
* `grantsOf_presentAll`: each handle is given for the container of its own child.
-/

namespace ScriptScope

/-- The container that a child shows, if there is something below. -/
def Child.container? : Child → Option Container
  | .leaf _ _ _ _ => none
  | .node c => some c

namespace Session

/-- Why a request shows nothing. -/
inductive Refusal where
  | unknownHandle (e : UnknownHandle)
  | evaluation (e : EvalError)
deriving DecidableEq, Repr

inductive Request where
  | register (c : Container)
  | item (name : String) (path : Option String) (value : Item)
  | expand (handle : Int64)
  | scopes (frame : Frame) (context : Context)
  | localVariables (frame : Frame) (context : Context)
  | evaluate (frame : Frame) (context : Context) (path : EvaluatePath)
  | evaluateText (frame : Frame) (context : Context) (text : String)
  | clear

abbrev Answer := Except Refusal (List Stub)

/-- Carries out a request that shows one child. -/
def answerOne (result : Stub × Session) : Answer × Session :=
  (.ok [result.1], result.2)

/-- Carries out a request that shows children. -/
def answerAll (result : List Stub × Session) : Answer × Session :=
  (.ok result.1, result.2)

/-- Carries out a request; one that is refused leaves the session as it is. -/
def answer (memory : Memory) (s : Session) : Request → Answer × Session
  | .register c => answerOne (s.register memory c)
  | .item name path value => answerOne (s.presentItem memory name path value)
  | .expand handle =>
    match s.expand memory handle.toInt with
    | .error e => (.error (.unknownHandle e), s)
    | .ok result => answerAll result
  | .scopes frame context => answerAll (frame.scopesIn context memory s)
  | .localVariables frame context => answerAll (frame.variablesIn context memory s)
  | .evaluate frame context path =>
    match frame.evaluate context memory s.presentation path with
    | .error e => (.error (.evaluation e), s)
    | .ok child => answerOne (s.present memory child)
  | .evaluateText frame context text =>
    match frame.evaluateIn context memory s text with
    | .error e => (.error (.evaluation e), s)
    | .ok result => answerOne result
  | .clear => (.ok [], s.clear)

/-- One child, or the reason why there is none. -/
def shownOne : Except EvalError Child → Except Refusal (List Child)
  | .error e => .error (.evaluation e)
  | .ok child => .ok [child]

/-- What a request shows, given the container behind each handle. -/
def Request.shown (memory : Memory) (presentation : Presentation)
    (behind : Int64 → Option Container) : Request → Except Refusal (List Child)
  | .register c => .ok [.node c]
  | .item name path value => .ok [.ofItem memory.heap name path value]
  | .expand handle =>
    match behind handle with
    | none => .error (.unknownHandle ⟨handle.toInt⟩)
    | some c => .ok (c.children memory presentation)
  | .scopes frame context => .ok ((frame.scopes context).map .node)
  | .localVariables frame context => .ok (frame.localVariables context memory presentation)
  | .evaluate frame context path =>
    shownOne (frame.evaluate context memory presentation path)
  | .evaluateText frame context text =>
    shownOne (frame.evaluateText context memory presentation text)
  | .clear => .ok []

/-- The container behind a handle of machine size. -/
def behind (s : Session) (handle : Int64) : Option Container :=
  s.get? handle.toInt

variable {memory : Memory} {s : Session}

/-- A request other than clearing is refused, or shows its children and does nothing else. -/
theorem answer_eq (memory : Memory) (s : Session) {request : Request} (h : request ≠ .clear) :
    s.answer memory request =
      match request.shown memory s.presentation s.behind with
      | .error e => (.error e, s)
      | .ok children => answerAll (s.presentAll memory children) := by
  cases request with
  | register c => rfl
  | item name path value => rfl
  | expand handle =>
    simp only [answer, Request.shown, expand, behind]
    cases s.get? handle.toInt <;> rfl
  | scopes frame context => rfl
  | localVariables frame context => rfl
  | evaluate frame context path =>
    simp only [answer, Request.shown]
    cases frame.evaluate context memory s.presentation path <;> rfl
  | evaluateText frame context text =>
    simp only [answer, Request.shown, Frame.evaluateIn]
    cases frame.evaluateText context memory s.presentation text <;> rfl
  | clear => exact absurd rfl h

theorem presentation_present (memory : Memory) (s : Session) (child : Child) :
    (s.present memory child).2.presentation = s.presentation := by
  cases child <;> rfl

theorem presentAll_cons (child : Child) (children : List Child) :
    s.presentAll memory (child :: children) =
      let first := s.present memory child
      let rest := first.2.presentAll memory children
      (first.1 :: rest.1, rest.2) := rfl

/-- What is shown for a child: the sessions differ by the children before it. -/
theorem getElem?_presentAll (children : List Child) (i : Nat) :
    (s.presentAll memory children).1[i]? =
      children[i]?.map fun child =>
        ((s.presentAll memory (children.take i)).2.present memory child).1 := by
  induction children generalizing s i with
  | nil => simp [presentAll]
  | cons child children ih =>
    rw [presentAll_cons]
    cases i with
    | zero => rfl
    | succ i => exact ih i

@[simp] theorem length_presentAll (children : List Child) :
    (s.presentAll memory children).1.length = children.length := by
  induction children generalizing s with
  | nil => rfl
  | cons child children ih =>
    rw [presentAll_cons, List.length_cons, List.length_cons, ih]

theorem presentAll_session (children : List Child) :
    (s.presentAll memory children).2 =
      { s with live := s.live ++ (children.filterMap Child.container?).toArray } := by
  induction children generalizing s with
  | nil => simp [presentAll]
  | cons child children ih =>
    rw [presentAll_cons]
    simp only [ih, List.filterMap_cons]
    cases child with
    | leaf name typeLabel value path => rfl
    | node c => simp [present, register, Child.container?]

@[simp] theorem presentation_presentAll (children : List Child) :
    (s.presentAll memory children).2.presentation = s.presentation := by
  rw [presentAll_session]

@[simp] theorem released_presentAll (children : List Child) :
    (s.presentAll memory children).2.released = s.released := by
  rw [presentAll_session]

theorem get?_register (memory : Memory) (c : Container) (s : Session) (handle : Int) :
    (s.register memory c).2.get? handle =
      if handle = s.nextHandle then some c else s.get? handle := by
  simp only [register, get?, nextHandle, Array.getElem?_push]
  split
  · next hlt =>
    by_cases he : handle = ((s.released + s.live.size + 1 : Nat) : Int)
    · rw [if_pos he, if_pos (by omega)]
    · rw [if_neg he, if_neg (by omega)]
  · next hle => rw [if_neg (by omega)]

theorem get?_nextHandle (s : Session) : s.get? s.nextHandle = none := by
  have hnot : ¬ s.contains s.nextHandle = true := by
    rw [contains_iff]
    omega
  simpa [contains] using hnot

theorem get?_presentAll {handle : Int} (h : handle < s.nextHandle) (children : List Child) :
    (s.presentAll memory children).2.get? handle = s.get? handle := by
  simp only [nextHandle] at h
  simp only [presentAll_session, get?]
  split
  · rw [Array.getElem?_append_left (by omega)]
  · rfl

theorem isLeaf_present (memory : Memory) (s : Session) (child : Child) :
    (s.present memory child).1.isLeaf = child.container?.isNone := by
  cases child with
  | leaf name typeLabel value path => rfl
  | node c =>
    have hne : (s.nextHandle : Int) ≠ 0 := by
      simp only [nextHandle]
      omega
    simp only [Stub.isLeaf, present, register_handle, hne, decide_false, Child.container?,
      Option.isNone_some]

theorem nextHandle_presentAll (memory : Memory) (s : Session) (children : List Child) :
    (s.presentAll memory children).2.nextHandle =
      s.nextHandle + (children.filterMap Child.container?).length := by
  simp only [presentAll_session, nextHandle, Array.size_append, List.size_toArray]
  omega

theorem presentation_answer (memory : Memory) (s : Session) (request : Request) :
    (s.answer memory request).2.presentation = s.presentation := by
  by_cases hne : request = .clear
  · subst hne
    rfl
  · rw [answer_eq memory s hne]
    split
    · rfl
    · exact presentation_presentAll _

/-- What is behind a handle stays there until it is released. -/
theorem get?_answer {handle : Int} (hlt : handle < s.nextHandle) {request : Request}
    (hne : request ≠ .clear) : (s.answer memory request).2.get? handle = s.get? handle := by
  rw [answer_eq memory s hne]
  split
  · rfl
  · exact get?_presentAll hlt _

/-- The counter never goes back. -/
theorem nextHandle_le_answer (memory : Memory) (s : Session) (request : Request) :
    s.nextHandle ≤ (s.answer memory request).2.nextHandle := by
  by_cases hne : request = .clear
  · subst hne
    exact Nat.le_of_eq s.nextHandle_clear.symm
  · rw [answer_eq memory s hne]
    split
    · exact Nat.le_refl _
    · simp only [answerAll, nextHandle_presentAll]
      omega

/-- The handles among stubs; a stub with nothing below has none. -/
def handlesOf (stubs : List Stub) : List Int :=
  (stubs.map Stub.handle).filter (· ≠ 0)

/-- The container that a child was shown for, with the handle that its stub carries. -/
def grant? (shown : Child × Stub) : Option (Int × Container) :=
  shown.1.container?.map fun c => (shown.2.handle, c)

/-- Which container each handle among the stubs of children was given for. -/
def grantsOf (children : List Child) (stubs : List Stub) : List (Int × Container) :=
  (children.zip stubs).filterMap grant?

theorem handlesOf_cons_of_isLeaf {stub : Stub} (h : stub.handle = 0) (stubs : List Stub) :
    handlesOf (stub :: stubs) = handlesOf stubs := by
  simp [handlesOf, h]

theorem handlesOf_cons {stub : Stub} (h : stub.handle ≠ 0) (stubs : List Stub) :
    handlesOf (stub :: stubs) = stub.handle :: handlesOf stubs := by
  simp [handlesOf, h]

theorem handlesOf_presentAll (children : List Child) :
    handlesOf (s.presentAll memory children).1 =
      (List.range' s.nextHandle (children.filterMap Child.container?).length).map Int.ofNat := by
  induction children generalizing s with
  | nil => rfl
  | cons child children ih =>
    rw [presentAll_cons]
    cases child with
    | leaf name typeLabel value path =>
      rw [handlesOf_cons_of_isLeaf rfl, ih]
      rfl
    | node c =>
      have hne : (s.present memory (.node c)).1.handle ≠ 0 := by
        simp only [present, register_handle, nextHandle]
        omega
      rw [handlesOf_cons hne, ih]
      simp only [present, register_handle, nextHandle_register, Child.container?,
        List.filterMap_cons, List.length_cons, List.range'_succ, List.map_cons]
      rfl

/-- Containers with the handles from `first` on. -/
def numbered (first : Nat) (cs : List Container) : List (Int × Container) :=
  ((List.range' first cs.length).map Int.ofNat).zip cs

theorem numbered_cons (first : Nat) (c : Container) (cs : List Container) :
    numbered first (c :: cs) = (Int.ofNat first, c) :: numbered (first + 1) cs := by
  simp [numbered, List.range'_succ]

theorem numbered_append (first : Nat) (cs ds : List Container) :
    numbered first (cs ++ ds) = numbered first cs ++ numbered (first + cs.length) ds := by
  induction cs generalizing first with
  | nil => rfl
  | cons c cs ih =>
    rw [List.cons_append, numbered_cons, numbered_cons, ih, List.length_cons,
      Nat.add_right_comm, Nat.add_assoc, List.cons_append]

theorem map_fst_numbered (first : Nat) (cs : List Container) :
    (numbered first cs).map Prod.fst = (List.range' first cs.length).map Int.ofNat := by
  rw [numbered, List.map_fst_zip (by simp)]

theorem mem_numbered {first : Nat} {cs : List Container} {handle : Int} {c : Container} :
    (handle, c) ∈ numbered first cs ↔ ∃ i, cs[i]? = some c ∧ handle = (first + i : Nat) := by
  induction cs generalizing first with
  | nil => simp [numbered]
  | cons d cs ih =>
    rw [numbered_cons, List.mem_cons, ih]
    constructor
    · rintro (he | ⟨i, hi, rfl⟩)
      · obtain ⟨rfl, rfl⟩ := Prod.mk.inj he
        exact ⟨0, rfl, rfl⟩
      · exact ⟨i + 1, hi, by rw [Nat.add_right_comm, Nat.add_assoc]⟩
    · rintro ⟨i, hi, rfl⟩
      cases i with
      | zero =>
        obtain rfl : d = c := by simpa using hi
        exact .inl rfl
      | succ i => exact .inr ⟨i, by simpa using hi, by rw [Nat.add_right_comm, Nat.add_assoc]⟩

theorem grantsOf_presentAll (children : List Child) :
    grantsOf children (s.presentAll memory children).1 =
      numbered s.nextHandle (children.filterMap Child.container?) := by
  induction children generalizing s with
  | nil => rfl
  | cons child children ih =>
    rw [presentAll_cons]
    simp only [grantsOf, List.zip_cons_cons, List.filterMap_cons] at ih ⊢
    rw [ih]
    cases child with
    | leaf name typeLabel value path => rfl
    | node c =>
      simp only [grant?, present, register_handle, nextHandle_register, Child.container?,
        Option.map_some, numbered_cons]
      rfl

end Session
end ScriptScope

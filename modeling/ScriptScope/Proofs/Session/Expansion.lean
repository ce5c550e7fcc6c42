import ScriptScope.Proofs.Session.Requests

/-!
# ScriptScope.Proofs.Session.Expansion

What expanding a handle does to a session, and that the order of expansions makes no difference.

An expansion registers containers while it goes through the children, so two expansions of one
handle never give the same handles. All else that they show is the same, whatever was expanded in
between, since an expansion only adds to the session.

* `expands_presentAll`: what is behind a handle stays there, and the containers among the children
  are behind the next handles.
* `getElem?_expandEach`: in a row of expansions a handle shows what it showed at the start, up to
  the handles of the children.
-/

namespace ScriptScope

/-- A stub without its handle, and whether it had none. -/
def Stub.unnumbered (stub : Stub) : Stub × Bool :=
  ({ stub with handle := 0 }, stub.isLeaf)

/-- What a child is shown as, whatever the next handle is. -/
def Child.unnumbered (memory : Memory) (limit : Option Nat) : Child → Stub × Bool
  | .leaf name typeLabel value path => (.leaf name typeLabel value path, true)
  | .node c => (c.stub memory limit 0, false)

namespace Session

variable {memory : Memory} {s : Session}

/-- The stubs with something below. -/
def openable (stubs : List Stub) : List Stub :=
  stubs.filter fun stub => !stub.isLeaf

theorem map_handle_openable (stubs : List Stub) :
    (openable stubs).map Stub.handle = handlesOf stubs := by
  rw [handlesOf, List.filter_map]
  congr 1
  apply List.filter_congr
  intro stub _
  simp [Stub.isLeaf]

/-- How a session stands after it has shown stubs: it holds what it held before, and behind the
next handles, one for each stub with something below, a container that bears the name and the path
of its stub. -/
structure Expands (s : Session) (stubs : List Stub) (after : Session) : Prop where
  keeps : ∀ handle c, s.get? handle = some c → after.get? handle = some c
  handles : (openable stubs).map Stub.handle =
    (List.range' s.nextHandle (openable stubs).length).map Int.ofNat
  nextHandle : after.nextHandle = s.nextHandle + (openable stubs).length
  bound : ∀ stub ∈ stubs, stub.isLeaf = false →
    ∃ c, after.get? stub.handle = some c ∧ c.name = stub.name ∧
      c.evaluatePath = stub.evaluatePath
  adds : ∀ handle c, after.get? handle = some c →
    s.get? handle = some c ∨ ∃ stub ∈ stubs, stub.isLeaf = false ∧ stub.handle = handle

theorem lt_nextHandle {handle : Int} {c : Container} (h : s.get? handle = some c) :
    handle < s.nextHandle :=
  (contains_iff.1 (congrArg Option.isSome h)).2

theorem length_openable_presentAll (children : List Child) :
    (openable (s.presentAll memory children).1).length =
      (children.filterMap Child.container?).length := by
  have h := map_handle_openable (s.presentAll memory children).1
  rw [handlesOf_presentAll] at h
  simpa using congrArg List.length h

/-- A stub with something below belongs to a container, and its handle stands for that one. -/
theorem get?_handle_presentAll {children : List Child} {stub : Stub}
    (h : stub ∈ (s.presentAll memory children).1) (hopen : stub.isLeaf = false) :
    ∃ c, (s.presentAll memory children).2.get? stub.handle = some c ∧
      stub = c.stub memory s.presentation.byteLimit stub.handle := by
  induction children generalizing s with
  | nil => cases h
  | cons child children ih =>
    rw [presentAll_cons] at h ⊢
    rcases List.mem_cons.1 h with rfl | h
    · cases child with
      | leaf name typeLabel value path => cases hopen
      | node c =>
        refine ⟨c, ?_, rfl⟩
        have hget : (s.register memory c).2.get? s.nextHandle = some c := by
          rw [get?_register, if_pos rfl]
        exact (get?_presentAll (lt_nextHandle hget) children).trans hget
    · obtain ⟨c, hget, hstub⟩ := ih h
      rw [presentation_present] at hstub
      exact ⟨c, hget, hstub⟩

theorem mem_handlesOf_presentAll {children : List Child} {handle : Int} {c : Container}
    (h : (s.presentAll memory children).2.get? handle = some c) (hnew : s.get? handle ≠ some c) :
    handle ∈ handlesOf (s.presentAll memory children).1 := by
  have hlt := lt_nextHandle h
  have hle : (s.nextHandle : Int) ≤ handle := by
    apply Int.not_lt.1
    intro hold
    rw [get?_presentAll hold] at h
    exact hnew h
  rw [nextHandle_presentAll] at hlt
  rw [handlesOf_presentAll, List.mem_map]
  refine ⟨handle.toNat, ?_, Int.toNat_of_nonneg (by omega)⟩
  rw [List.mem_range'_1]
  omega

theorem expands_presentAll (memory : Memory) (s : Session) (children : List Child) :
    s.Expands (s.presentAll memory children).1 (s.presentAll memory children).2 where
  keeps handle c h := by rw [get?_presentAll (lt_nextHandle h), h]
  handles := by
    rw [map_handle_openable, handlesOf_presentAll, length_openable_presentAll]
  nextHandle := by rw [nextHandle_presentAll, length_openable_presentAll]
  bound stub h hopen := by
    obtain ⟨c, hget, hstub⟩ := get?_handle_presentAll h hopen
    exact ⟨c, hget, (congrArg Stub.name hstub).symm, (congrArg Stub.evaluatePath hstub).symm⟩
  adds handle c h := by
    by_cases hold : s.get? handle = some c
    · exact .inl hold
    · have hmem := mem_handlesOf_presentAll h hold
      rw [← map_handle_openable, List.mem_map] at hmem
      obtain ⟨stub, hstub, rfl⟩ := hmem
      obtain ⟨hshown, hopen⟩ := List.mem_filter.1 hstub
      exact .inr ⟨stub, hshown, by simpa using hopen, rfl⟩

/-! ## A row of expansions -/

/-- The answers to expansions one after the other. -/
def expandEach (memory : Memory) : List Int64 → Session → List Answer
  | [], _ => []
  | handle :: rest, s =>
    let first := s.answer memory (.expand handle)
    first.1 :: expandEach memory rest first.2

theorem unnumbered_present (memory : Memory) (s : Session) (child : Child) :
    (s.present memory child).1.unnumbered =
      child.unnumbered memory s.presentation.byteLimit := by
  rw [Stub.unnumbered, isLeaf_present]
  cases child <;> rfl

theorem map_unnumbered_presentAll (children : List Child) :
    (s.presentAll memory children).1.map Stub.unnumbered =
      children.map (Child.unnumbered memory s.presentation.byteLimit) := by
  induction children generalizing s with
  | nil => rfl
  | cons child children ih =>
    rw [presentAll_cons, List.map_cons, List.map_cons, unnumbered_present, ih,
      presentation_present]

theorem answer_expand {handle : Int64} {c : Container} (h : s.behind handle = some c) :
    s.answer memory (.expand handle) =
      answerAll (s.presentAll memory (c.children memory s.presentation)) := by
  rw [answer_eq memory s (by rintro ⟨⟩)]
  simp only [Request.shown, h]

theorem getElem?_expandEach {handle : Int64} {c : Container} (h : s.behind handle = some c)
    {handles : List Int64} {i : Nat} (hi : handles[i]? = some handle) :
    ∃ stubs, (expandEach memory handles s)[i]? = some (.ok stubs) ∧
      stubs.map Stub.unnumbered =
        (c.children memory s.presentation).map
          (Child.unnumbered memory s.presentation.byteLimit) := by
  induction handles generalizing s i with
  | nil => cases hi
  | cons other handles ih =>
    cases i with
    | zero =>
      obtain rfl : other = handle := Option.some.inj hi
      refine ⟨_, ?_, map_unnumbered_presentAll (c.children memory s.presentation)⟩
      rw [expandEach, answer_expand h]
      rfl
    | succ i =>
      -- whatever is expanded first, the container stays behind the handle
      have hkept : (s.answer memory (.expand other)).2.behind handle = some c :=
        (get?_answer (lt_nextHandle h) (by rintro ⟨⟩)).trans h
      obtain ⟨stubs, hanswer, hshown⟩ := ih hkept hi
      rw [presentation_answer] at hshown
      exact ⟨stubs, hanswer, hshown⟩

theorem expands_in_any_order (memory : Memory) (s : Session) :
    (∀ handle : Int64,
      match s.answer memory (.expand handle) with
      | (.error e, after) => e = .unknownHandle ⟨handle.toInt⟩ ∧ after = s
      | (.ok stubs, after) => s.Expands stubs after) ∧
    ∀ handle : Int64, s.contains handle.toInt = true →
      ∀ (first second : List Int64) (i j : Nat),
        first[i]? = some handle → second[j]? = some handle →
        ∃ a b, (expandEach memory first s)[i]? = some (.ok a) ∧
          (expandEach memory second s)[j]? = some (.ok b) ∧
          a.map Stub.unnumbered = b.map Stub.unnumbered := by
  constructor
  · intro handle
    cases hbehind : s.behind handle with
    | none =>
      have hanswer : s.answer memory (.expand handle) =
          (.error (.unknownHandle ⟨handle.toInt⟩), s) := by
        rw [answer_eq memory s (by rintro ⟨⟩)]
        simp only [Request.shown, hbehind]
      rw [hanswer]
      exact ⟨rfl, rfl⟩
    | some c =>
      rw [answer_expand hbehind]
      exact expands_presentAll memory s (c.children memory s.presentation)
  · intro handle hlive first second i j hi hj
    obtain ⟨c, hc⟩ := Option.isSome_iff_exists.1 hlive
    obtain ⟨a, ha, hshown⟩ := getElem?_expandEach hc hi
    obtain ⟨b, hb, hagain⟩ := getElem?_expandEach hc hj
    exact ⟨a, b, ha, hb, hshown.trans hagain.symm⟩

/-- An array that holds itself, first expanded before a map entry and then after it. -/
theorem expands_in_any_order_cyclic :
    let memory : Memory := ⟨⟨#[[.integer 7, .array ⟨0⟩]], #[]⟩, fun _ => []⟩
    let self : Container := ⟨.sequence (.shared ⟨0⟩) false, "self", some "self"⟩
    let entry : Container := ⟨.mapEntry (.bytes [0x6B]) (.array ⟨0⟩), "", none⟩
    let s := ((start {}).presentAll memory [.node self, .node entry]).2
    let seven : Stub := ⟨"0", "Integer", "7", 0, none, none, some "self[0]"⟩
    let again : Stub := ⟨"1", "Array[2]", "Array[2]", 3, some 2, none, some "self[1]"⟩
    let later : Stub := ⟨"1", "Array[2]", "Array[2]", 5, some 2, none, some "self[1]"⟩
    s.contains 1 = true ∧
      (expandEach memory [1, 2] s)[0]? = some (.ok [seven, again]) ∧
      (expandEach memory [2, 1] s)[1]? = some (.ok [seven, later]) ∧
      [seven, again].map Stub.unnumbered = [seven, later].map Stub.unnumbered := by
  intro memory self entry s seven again later
  have hlive : s.contains 1 = true := by decide +kernel
  let children := self.children memory s.presentation
  let between := (s.presentAll memory (entry.children memory s.presentation)).2
  have hfirst : (expandEach memory [1, 2] s)[0]? = some (.ok [seven, again]) :=
    congrArg (some <| Except.ok ·)
      (show (s.presentAll memory children).1 = [seven, again] by decide +kernel)
  have hsecond : (expandEach memory [2, 1] s)[1]? = some (.ok [seven, later]) :=
    congrArg (some <| Except.ok ·)
      (show (between.presentAll memory children).1 = [seven, later] by decide +kernel)
  obtain ⟨a, b, ha, hb, hsame⟩ :=
    (expands_in_any_order memory s).2 1 hlive [1, 2] [2, 1] 0 1 rfl rfl
  obtain rfl : [seven, again] = a := Except.ok.inj (Option.some.inj (hfirst.symm.trans ha))
  obtain rfl : [seven, later] = b := Except.ok.inj (Option.some.inj (hsecond.symm.trans hb))
  exact ⟨hlive, hfirst, hsecond, hsame⟩

end Session
end ScriptScope

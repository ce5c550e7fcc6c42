import ScriptScope.Proofs.Frame.Addresses

/-!
# ScriptScope.Proofs.Frame.Walk

What a client sees of a frame while it opens the variable tree, and that each path it is given
selects the same value again.

A client begins anywhere: at the scopes, at the locals or at a text that selects something. It then
expands what it has been shown, as far as it likes, since a composite may hold itself
(`Frame.Walk`). Other requests may come in between, clearing included.

* `Session.Later`: what every request leaves as it is.
* `Frame.backs_of_walk`: each stub of a walk shows a child that its path selects.
* `Frame.evaluateIn_of_walk`: so the path of a stub selects a stub that differs from it in name and
  handle only.
-/

namespace ScriptScope

namespace Session

/-- How a session may stand later: no handle below the counter gets another container. -/
structure Later (s later : Session) : Prop where
  presentation : later.presentation = s.presentation
  nextHandle : s.nextHandle ≤ later.nextHandle
  get? : ∀ {handle : Int} {c : Container}, handle < s.nextHandle →
    later.get? handle = some c → s.get? handle = some c

variable {memory : Memory} {s : Session}

theorem later_presentAll (memory : Memory) (s : Session) (children : List Child) :
    s.Later (s.presentAll memory children).2 where
  presentation := presentation_presentAll children
  nextHandle := by
    rw [nextHandle_presentAll]
    omega
  get? hlt hc := by
    rwa [get?_presentAll hlt] at hc

theorem later_answer (memory : Memory) (s : Session) (request : Request) :
    s.Later (s.answer memory request).2 where
  presentation := presentation_answer memory s request
  nextHandle := nextHandle_le_answer memory s request
  get? hlt hc := by
    by_cases hne : request = .clear
    · subst hne
      have hlive : s.clear.contains _ = true := congrArg Option.isSome hc
      rw [contains_clear] at hlive
      cases hlive
    · rwa [get?_answer hlt hne] at hc

/-- Whether a stub shows a child. The handle of a container is no one else's, live or not. -/
def Shows (memory : Memory) (s : Session) (stub : Stub) : Child → Prop
  | .leaf name typeLabel value path => stub = .leaf name typeLabel value path
  | .node c =>
    stub = c.stub memory s.presentation.byteLimit stub.handle ∧
      0 < stub.handle ∧ stub.handle < s.nextHandle ∧
      ∀ other, s.get? stub.handle = some other → other = c

theorem Shows.later {later : Session} {stub : Stub} {child : Child}
    (h : s.Shows memory stub child) (hlater : s.Later later) : later.Shows memory stub child := by
  cases child with
  | leaf name typeLabel value path => exact h
  | node c =>
    obtain ⟨hstub, hpos, hlt, hother⟩ := h
    refine ⟨?_, hpos, ?_, ?_⟩
    · rw [hlater.presentation]
      exact hstub
    · have := hlater.nextHandle
      omega
    · intro other hget
      exact hother other (hlater.get? hlt hget)

theorem shows_present (memory : Memory) (s : Session) (child : Child) :
    (s.present memory child).2.Shows memory (s.present memory child).1 child := by
  cases child with
  | leaf name typeLabel value path => rfl
  | node c =>
    have hhandle := register_handle memory c s
    refine ⟨rfl, ?_, ?_, ?_⟩
    · simp only [present, hhandle, nextHandle]
      omega
    · simp only [present, hhandle, nextHandle_register]
      omega
    · intro other hget
      rw [present, hhandle, get?_register, if_pos rfl] at hget
      exact (Option.some.inj hget).symm

theorem Shows.path?_eq {stub : Stub} {child : Child} (h : s.Shows memory stub child) :
    child.path? = stub.evaluatePath := by
  cases child with
  | leaf name typeLabel value path => exact h ▸ rfl
  | node c => exact h.1 ▸ rfl

theorem shows_presentAll {children : List Child} {stub : Stub}
    (h : stub ∈ (s.presentAll memory children).1) :
    ∃ child ∈ children, (s.presentAll memory children).2.Shows memory stub child := by
  induction children generalizing s with
  | nil => cases h
  | cons child children ih =>
    rw [presentAll_cons] at h ⊢
    rcases List.mem_cons.1 h with rfl | h
    · -- showing the others leaves what is behind this handle as it is
      have hfirst := shows_present memory s child
      exact ⟨child, List.mem_cons_self, hfirst.later (later_presentAll memory _ children)⟩
    · obtain ⟨other, hmem, hother⟩ := ih h
      exact ⟨other, List.mem_cons_of_mem _ hmem, hother⟩

end Session

namespace Frame

/-- The sessions in which a client walks through a frame, with the stubs it was shown there. -/
inductive Walk (frame : Frame) (context : Context) (memory : Memory) :
    Session → List Stub → Prop where
  | start (s : Session) : Walk frame context memory s []
  | scopes {s : Session} {seen : List Stub} (h : Walk frame context memory s seen) :
    Walk frame context memory (frame.scopesIn context memory s).2
      (seen ++ (frame.scopesIn context memory s).1)
  | locals {s : Session} {seen : List Stub} (h : Walk frame context memory s seen) :
    Walk frame context memory (frame.variablesIn context memory s).2
      (seen ++ (frame.variablesIn context memory s).1)
  | evaluate {s after : Session} {seen : List Stub} {text : String} {stub : Stub}
    (h : Walk frame context memory s seen)
    (hstub : frame.evaluateIn context memory s text = .ok (stub, after)) :
    Walk frame context memory after (seen ++ [stub])
  | expand {s after : Session} {seen stubs : List Stub} {stub : Stub}
    (h : Walk frame context memory s seen) (hseen : stub ∈ seen)
    (hstubs : s.expand memory stub.handle = .ok (stubs, after)) :
    Walk frame context memory after (seen ++ stubs)
  /-- Something else that the session is asked; what it shows need not be of the frame. -/
  | other {s : Session} {seen : List Stub} (h : Walk frame context memory s seen)
    (request : Session.Request) : Walk frame context memory (s.answer memory request).2 seen

/-- Each stub shows a child of the tree, and the path of the child selects it. -/
def Backs (frame : Frame) (context : Context) (memory : Memory) (s : Session)
    (seen : List Stub) : Prop :=
  ∀ stub ∈ seen, ∃ child, frame.Places context memory s.presentation child ∧
    s.Shows memory stub child

variable {frame : Frame} {context : Context} {memory : Memory} {s : Session} {seen : List Stub}

theorem Backs.later {later : Session} (h : frame.Backs context memory s seen)
    (hlater : s.Later later) : frame.Backs context memory later seen := by
  intro stub hstub
  obtain ⟨child, hplaces, hshows⟩ := h stub hstub
  rw [← hlater.presentation] at hplaces
  exact ⟨child, hplaces, hshows.later hlater⟩

theorem Backs.presentAll {after : Session} {children : List Child} {stubs : List Stub}
    (h : frame.Backs context memory s seen)
    (hplaces : ∀ child ∈ children, frame.Places context memory s.presentation child)
    (hshown : s.presentAll memory children = (stubs, after)) :
    frame.Backs context memory after (seen ++ stubs) := by
  obtain rfl : (s.presentAll memory children).1 = stubs := congrArg Prod.fst hshown
  obtain rfl : (s.presentAll memory children).2 = after := congrArg Prod.snd hshown
  intro stub hstub
  rcases List.mem_append.1 hstub with hstub | hstub
  · exact h.later (Session.later_presentAll memory s children) stub hstub
  · obtain ⟨child, hmem, hshows⟩ := Session.shows_presentAll hstub
    rw [Session.presentation_presentAll]
    exact ⟨child, hplaces child hmem, hshows⟩

theorem Backs.evaluate {after : Session} {text : String} {stub : Stub}
    (h : frame.Backs context memory s seen)
    (hstub : frame.evaluateIn context memory s text = .ok (stub, after)) :
    frame.Backs context memory after (seen ++ [stub]) := by
  unfold evaluateIn at hstub
  cases hchild : frame.evaluateText context memory s.presentation text with
  | error e => rw [hchild] at hstub; cases hstub
  | ok child =>
    rw [hchild] at hstub
    have hpresent : s.present memory child = (stub, after) := Except.ok.inj hstub
    have hshown : s.presentAll memory [child] = ([stub], after) := by
      rw [Session.presentAll_cons, hpresent]
      rfl
    refine h.presentAll ?_ hshown
    intro other hother
    rw [List.mem_singleton.1 hother]
    exact places_evaluateText hchild

theorem Backs.expand {after : Session} {stubs : List Stub} {stub : Stub}
    (hfits : context.Fits memory) (hdistinct : frame.Unambiguous context memory)
    (h : frame.Backs context memory s seen) (hseen : stub ∈ seen)
    (hstubs : s.expand memory stub.handle = .ok (stubs, after)) :
    frame.Backs context memory after (seen ++ stubs) := by
  obtain ⟨child, hplaces, hshows⟩ := h stub hseen
  unfold Session.expand at hstubs
  cases hget : s.get? stub.handle with
  | none => rw [hget] at hstubs; cases hstubs
  | some c =>
    rw [hget] at hstubs
    cases child with
    | leaf name typeLabel value path =>
      -- a leaf has the handle zero, which is never live
      obtain rfl := hshows
      have hlive := Session.contains_iff.1 (congrArg Option.isSome hget)
      have hzero : (0 : Int) ≤ s.released := Int.natCast_nonneg _
      exact absurd hlive.1 (Int.not_lt.2 hzero)
    | node d =>
      obtain ⟨-, -, -, hother⟩ := hshows
      obtain rfl := hother c hget
      exact h.presentAll (places_children hfits hdistinct hplaces) (Except.ok.inj hstubs)

theorem backs_of_walk (hfits : context.Fits memory) (hdistinct : frame.Unambiguous context memory)
    (h : frame.Walk context memory s seen) : frame.Backs context memory s seen := by
  induction h with
  | start s =>
    intro stub hstub
    cases hstub
  | scopes h ih => exact ih.presentAll places_scopes rfl
  | locals h ih => exact ih.presentAll (places_variables hfits hdistinct) rfl
  | evaluate h hstub ih => exact ih.evaluate hstub
  | expand h hseen hstubs ih => exact ih.expand hfits hdistinct hseen hstubs
  | other h request ih => exact ih.later (Session.later_answer memory _ request)

theorem evaluateIn_of_walk {stub : Stub} {p : String} (hfits : context.Fits memory)
    (hdistinct : frame.Unambiguous context memory) (hwalk : frame.Walk context memory s seen)
    (hstub : stub ∈ seen) (hpath : stub.evaluatePath = some p) :
    ∃ again after, frame.evaluateIn context memory s p = .ok (again, after) ∧
      again.evaluatePath = some p ∧ again.typeLabel = stub.typeLabel ∧
      again.value = stub.value ∧ again.indexedCount = stub.indexedCount ∧
      again.namedCount = stub.namedCount ∧ again.isLeaf = stub.isLeaf := by
  obtain ⟨child, hplaces, hshows⟩ := backs_of_walk hfits hdistinct hwalk stub hstub
  have hchild : child.path? = some p := by
    rw [hshows.path?_eq, hpath]
  have heval : frame.evaluateIn context memory s p = .ok (s.present memory (child.named p)) := by
    rw [evaluateIn, evaluateText_of_places hplaces hchild]
    rfl
  refine ⟨_, _, heval, ?_⟩
  cases child with
  | leaf name typeLabel value path =>
    obtain rfl := hshows
    exact ⟨hpath, rfl, rfl, rfl, rfl, rfl⟩
  | node c =>
    obtain ⟨heq, hpos, -, -⟩ := hshows
    have hleaf : (s.present memory (.node { c with name := p })).1.isLeaf = stub.isLeaf := by
      have hnext : (0 : Int) < s.nextHandle := by
        simp only [Session.nextHandle]
        omega
      simp only [Stub.isLeaf, Session.present, Session.register_handle, Int.ne_of_gt hpos,
        Int.ne_of_gt hnext]
    exact ⟨hchild, (congrArg Stub.typeLabel heq).symm, (congrArg Stub.value heq).symm,
      (congrArg Stub.indexedCount heq).symm, (congrArg Stub.namedCount heq).symm, hleaf⟩

/-- The second element of an array that holds itself there, which is the array again. -/
theorem evaluateIn_of_walk_cyclic :
    let entry : StorageEntry := ⟨[0x6B], [0x76], true⟩
    let memory : Memory := ⟨⟨#[[.integer 7, .array ⟨0⟩]], #[]⟩, fun _ => [entry]⟩
    let context : Context := ⟨.zero, 0, [], [.array ⟨0⟩], [.array ⟨0⟩]⟩
    let method : Method :=
      ⟨"", "", "", 0, 0, [⟨"total", ""⟩], [⟨"self", ""⟩], none, [], .zero⟩
    let frame : Frame := ⟨none, some method, true, true⟩
    let stub : Stub := ⟨"1", "Array[2]", "Array[2]", 6, some 2, none, some "$evalStack[0][1]"⟩
    ∃ s seen, frame.Walk context memory s seen ∧ stub ∈ seen ∧
      ∃ again after, frame.evaluateIn context memory s "$evalStack[0][1]" = .ok (again, after) ∧
        again.evaluatePath = some "$evalStack[0][1]" ∧ again.typeLabel = "Array[2]" ∧
        again.value = "Array[2]" ∧ again.indexedCount = some 2 ∧ again.namedCount = none ∧
        again.isLeaf = false := by
  intro entry memory context method frame stub
  let stack : Stub := ⟨"evalStack", "Array[1]", "Array[1]", 2, some 1, none, some "$evalStack"⟩
  let top : Stub := ⟨"0", "Array[2]", "Array[2]", 5, some 2, none, some "$evalStack[0]"⟩
  obtain ⟨s, seen, hwalk, hstub⟩ : ∃ s seen, frame.Walk context memory s seen ∧ stub ∈ seen := by
    have hscopes : frame.Walk context memory _ _ := .scopes (.start (Session.start {}))
    have hstack := hscopes.expand (show stack ∈ _ by decide +kernel) rfl
    have htop := hstack.expand (show top ∈ _ by decide +kernel) rfl
    exact ⟨_, _, htop, by decide +kernel⟩
  have hfits : context.Fits memory := by
    refine ⟨?_, by decide, by decide⟩
    rintro ⟨i⟩
    cases i with
    | zero => decide
    | succ i => exact Nat.zero_le _
  have hdistinct : frame.Unambiguous context memory :=
    ⟨by decide, fun _ => List.nodup_singleton _⟩
  exact ⟨s, seen, hwalk, hstub, evaluateIn_of_walk hfits hdistinct hwalk hstub rfl⟩

end Frame
end ScriptScope

import ScriptScope.Proofs.Session.Requests

/-!
# ScriptScope.Proofs.Session.Log

A session over a whole run. A log carries out requests one after the other, each with the memory of
its moment, and notes what the client is told: the answers, the handles in them, and which container
each handle was given for.

* `Sound.step`: the invariant. The handles given so far are 1, 2, 3, … without a gap, and those
  given since the last clear stand for exactly the live containers, in order.
* `Sound.get?_eq_some_iff_mem_grants`, `Sound.contains_iff_mem_recent`: so a handle is live if and
  only if it was given since the last clear, and what is behind it is what it was given for.
-/

namespace ScriptScope
namespace Session

/-- A session with all that it has told its client. -/
structure Log where
  session : Session
  answers : List Answer
  /-- The handles given so far, in order. -/
  issued : List Int
  /-- Those given since the last clear. -/
  recent : List Int
  /-- The containers they were given for. -/
  grants : List (Int × Container)

namespace Log

def start (settings : Settings) : Log :=
  ⟨.start settings, [], [], [], []⟩

def note (log : Log) (children : List Child) (stubs : List Stub) : Log :=
  { log with
    issued := log.issued ++ handlesOf stubs
    recent := log.recent ++ handlesOf stubs
    grants := log.grants ++ grantsOf children stubs }

/-- One request, with the memory that it finds. -/
def step (log : Log) (turn : Memory × Request) : Log :=
  let result := log.session.answer turn.1 turn.2
  let shown := turn.2.shown turn.1 log.session.presentation log.session.behind
  let next := { log with session := result.2, answers := log.answers ++ [result.1] }
  match turn.2, shown, result.1 with
  | .clear, _, _ => { next with recent := [], grants := [] }
  | _, .ok children, .ok stubs => next.note children stubs
  | _, _, _ => next

def run (settings : Settings) (turns : List (Memory × Request)) : Log :=
  turns.foldl step (start settings)

theorem step_clear (log : Log) (memory : Memory) :
    log.step (memory, .clear) =
      { log with
        session := log.session.clear
        answers := log.answers ++ [.ok []]
        recent := []
        grants := [] } := rfl

theorem step_refused {log : Log} {memory : Memory} {request : Request} {e : Refusal}
    (hne : request ≠ .clear)
    (h : request.shown memory log.session.presentation log.session.behind = .error e) :
    log.step (memory, request) = { log with answers := log.answers ++ [.error e] } := by
  have hanswer := answer_eq memory log.session hne
  rw [h] at hanswer
  simp only [step, hanswer, h]

theorem step_shown {log : Log} {memory : Memory} {request : Request} {children : List Child}
    (hne : request ≠ .clear)
    (h : request.shown memory log.session.presentation log.session.behind = .ok children) :
    log.step (memory, request) =
      let result := log.session.presentAll memory children
      let next : Log :=
        { log with session := result.2, answers := log.answers ++ [Except.ok result.1] }
      next.note children result.1 := by
  have hanswer := answer_eq memory log.session hne
  rw [h] at hanswer
  simp only [step, hanswer, h, answerAll]

theorem session_step (log : Log) (turn : Memory × Request) :
    (log.step turn).session = (log.session.answer turn.1 turn.2).2 := by
  simp only [step]
  split <;> rfl

theorem answers_step (log : Log) (turn : Memory × Request) :
    (log.step turn).answers = log.answers ++ [(log.session.answer turn.1 turn.2).1] := by
  simp only [step]
  split <;> rfl

theorem nextHandle_le_foldl (log : Log) (turns : List (Memory × Request)) :
    log.session.nextHandle ≤ (turns.foldl step log).session.nextHandle := by
  induction turns generalizing log with
  | nil => exact Nat.le_refl _
  | cons turn turns ih =>
    have hstep := nextHandle_le_answer turn.1 log.session turn.2
    rw [← session_step] at hstep
    exact Nat.le_trans hstep (ih _)

theorem presentation_foldl (log : Log) (turns : List (Memory × Request)) :
    (turns.foldl step log).session.presentation = log.session.presentation := by
  induction turns generalizing log with
  | nil => rfl
  | cons turn turns ih =>
    rw [List.foldl_cons, ih, session_step, presentation_answer]

theorem get?_foldl {log : Log} {handle : Int} (hlt : handle < log.session.nextHandle)
    {turns : List (Memory × Request)} (hlive : ∀ turn ∈ turns, turn.2 ≠ .clear) :
    (turns.foldl step log).session.get? handle = log.session.get? handle := by
  induction turns generalizing log with
  | nil => rfl
  | cons turn turns ih =>
    have hmono := nextHandle_le_answer turn.1 log.session turn.2
    rw [← session_step] at hmono
    have hhead : turn.2 ≠ .clear := hlive turn List.mem_cons_self
    rw [List.foldl_cons, ih (by omega) fun other h => hlive other (List.mem_cons_of_mem _ h),
      session_step, get?_answer hlt hhead]

/-- What ties the log to the session. -/
structure Sound (log : Log) : Prop where
  issued : log.issued =
    (List.range' 1 (log.session.released + log.session.live.size)).map Int.ofNat
  recent : log.recent = log.grants.map Prod.fst
  grants : log.grants = numbered (log.session.released + 1) log.session.live.toList

theorem sound_start (settings : Settings) : (start settings).Sound :=
  ⟨rfl, rfl, rfl⟩

theorem Sound.step {log : Log} (h : log.Sound) (turn : Memory × Request) :
    (log.step turn).Sound := by
  obtain ⟨memory, request⟩ := turn
  by_cases hne : request = .clear
  · subst hne
    rw [step_clear]
    refine ⟨?_, rfl, rfl⟩
    rw [h.issued]
    rfl
  cases hshown : request.shown memory log.session.presentation log.session.behind with
  | error e =>
    rw [step_refused hne hshown]
    exact ⟨h.issued, h.recent, h.grants⟩
  | ok children =>
    rw [step_shown hne hshown]
    have hsize : (log.session.presentAll memory children).2.live.size =
        log.session.live.size + (children.filterMap Child.container?).length := by
      simp [presentAll_session]
    refine ⟨?_, ?_, ?_⟩
    · simp only [note, handlesOf_presentAll, h.issued, hsize, released_presentAll, nextHandle]
      rw [← List.map_append, ← Nat.add_assoc,
        Nat.add_comm (log.session.released + log.session.live.size) 1, List.range'_append_1]
    · simp only [note, List.map_append, h.recent, handlesOf_presentAll, grantsOf_presentAll,
        map_fst_numbered]
    · simp only [note, grantsOf_presentAll, h.grants, presentAll_session, Array.toList_append,
        numbered_append, nextHandle, Array.length_toList, Nat.add_right_comm _ 1]

theorem sound_foldl {log : Log} (h : log.Sound) (turns : List (Memory × Request)) :
    (turns.foldl Log.step log).Sound := by
  induction turns generalizing log with
  | nil => exact h
  | cons turn turns ih => exact ih (h.step turn)

theorem sound_run (settings : Settings) (turns : List (Memory × Request)) :
    (run settings turns).Sound :=
  sound_foldl (sound_start settings) turns

namespace Sound

variable {log : Log} (h : log.Sound)
include h

theorem get?_eq_some_iff_mem_grants {handle : Int} {c : Container} :
    log.session.get? handle = some c ↔ (handle, c) ∈ log.grants := by
  rw [get?_eq_some_iff, h.grants, mem_numbered]
  constructor
  · rintro ⟨i, hi, rfl⟩
    exact ⟨i, by simpa using hi, by rw [Nat.add_right_comm]⟩
  · rintro ⟨i, hi, rfl⟩
    exact ⟨i, by simpa using hi, by rw [Nat.add_right_comm]⟩

theorem contains_iff_mem_recent {handle : Int} :
    log.session.contains handle = true ↔ handle ∈ log.recent := by
  rw [contains, Option.isSome_iff_exists, h.recent, List.mem_map]
  constructor
  · rintro ⟨c, hc⟩
    exact ⟨(handle, c), h.get?_eq_some_iff_mem_grants.1 hc, rfl⟩
  · rintro ⟨⟨_, c⟩, hmem, rfl⟩
    exact ⟨c, h.get?_eq_some_iff_mem_grants.2 hmem⟩

theorem size_eq : log.session.size = log.recent.length := by
  rw [h.recent, h.grants, map_fst_numbered]
  simp [size]

theorem nextHandle_eq : log.session.nextHandle = log.issued.length + 1 := by
  rw [h.issued]
  simp [nextHandle]

theorem issued_eq : log.issued = (List.range' 1 log.issued.length).map Int.ofNat := by
  conv => lhs; rw [h.issued]
  rw [h.issued]
  simp

end Sound

theorem expand_of_contains {s : Session} {handle : Int} (h : s.contains handle = true)
    (memory : Memory) : ∃ result, s.expand memory handle = .ok result := by
  obtain ⟨c, hc⟩ := Option.isSome_iff_exists.1 h
  exact ⟨_, by rw [expand, hc]⟩

theorem expand_of_not_contains {s : Session} {handle : Int} (h : ¬s.contains handle = true)
    (memory : Memory) : s.expand memory handle = .error ⟨handle⟩ := by
  rw [contains, Option.not_isSome_iff_eq_none] at h
  rw [expand, h]

end Log
end Session
end ScriptScope

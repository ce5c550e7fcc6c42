import Mathlib.Algebra.Group.Nat.Defs
import ScriptScope.Proofs.Session.Log

/-!
# ScriptScope.Proofs.Session.Handles

Handles as machine words. `WordTable` is the plain way to hand them out: a counter of sixty-four
bits and a map from handles to containers. It gives up when the counter has no next value, and when
a handle to be given is already taken.

* `Simulates.register`: below the limit of the counter a registration never gives up, because every
  taken handle is below the counter.
* `handles_run`: over every run of requests the handles are numbered without a gap, the live ones
  are those given since the last clear, and the table gives the same answers without giving up.
-/

namespace ScriptScope
namespace Session

/-- A counter and the containers under the handles that it gave. -/
structure WordTable where
  next : Int64
  containers : OrderedMap Int64 Container

namespace WordTable

def start : WordTable :=
  ⟨1, .empty⟩

/-- Gives a container the next handle. There is no result when the counter is at its end, or when
the handle is taken. -/
def register? (t : WordTable) (c : Container) : Option (Int64 × WordTable) :=
  if t.next = Int64.maxValue then none
  else if (t.containers.find? t.next).isSome then none
  else some (t.next, ⟨t.next + 1, t.containers.insert t.next c⟩)

def present? (memory : Memory) (limit : Option Nat) (t : WordTable) :
    Child → Option (Stub × WordTable)
  | .leaf name typeLabel value path => some (.leaf name typeLabel value path, t)
  | .node c => (t.register? c).map fun given => (c.stub memory limit given.1.toInt, given.2)

def presentAll? (memory : Memory) (limit : Option Nat) :
    List Child → WordTable → Option (List Stub × WordTable)
  | [], t => some ([], t)
  | child :: rest, t =>
    (t.present? memory limit child).bind fun first =>
      (presentAll? memory limit rest first.2).map fun more => (first.1 :: more.1, more.2)

def answer? (memory : Memory) (presentation : Presentation) (t : WordTable)
    (request : Request) : Option (Answer × WordTable) :=
  match request, request.shown memory presentation t.containers.find? with
  | .clear, _ => some (.ok [], { t with containers := .empty })
  | _, .error e => some (.error e, t)
  | _, .ok children =>
    (t.presentAll? memory presentation.byteLimit children).map fun result =>
      (.ok result.1, result.2)

/-- Carries out requests one after the other; `answers` are those given before. -/
def run? (presentation : Presentation) :
    List (Memory × Request) → List Answer → WordTable → Option (List Answer × WordTable)
  | [], answers, t => some (answers, t)
  | turn :: turns, answers, t =>
    (t.answer? turn.1 presentation turn.2).bind fun result =>
      run? presentation turns (answers ++ [result.1]) result.2

/-- The table holds what the session holds. -/
structure Simulates (t : WordTable) (s : Session) : Prop where
  next : t.next = Int64.ofNat s.nextHandle
  find? : ∀ handle, t.containers.find? handle = s.behind handle
  size : t.containers.size = s.size

theorem simulates_start (settings : Settings) : start.Simulates (.start settings) where
  next := rfl
  find? handle := by simp [start, OrderedMap.empty, OrderedMap.find?, behind, get?, Session.start]
  size := rfl

theorem simulates_clear {t : WordTable} {s : Session} (h : t.Simulates s) :
    { t with containers := .empty : WordTable }.Simulates s.clear where
  next := by rw [nextHandle_clear, h.next]
  find? handle := by simp [OrderedMap.empty, OrderedMap.find?, behind, get?, clear]
  size := rfl

theorem Simulates.register {t : WordTable} {s : Session} (h : t.Simulates s) (memory : Memory)
    (c : Container) (hlt : s.nextHandle + 1 < 2 ^ 63) :
    ∃ t', t.register? c = some (Int64.ofNat s.nextHandle, t') ∧
      t'.Simulates (s.register memory c).2 := by
  have hnext : t.next.toInt = s.nextHandle := by
    rw [h.next, Int64.toInt_ofNat_of_lt (by omega)]
  have hmax : t.next ≠ Int64.maxValue := by
    intro he
    rw [he, Int64.toInt_maxValue] at hnext
    omega
  -- every taken handle is below the counter
  have hfree : t.containers.find? t.next = none := by
    rw [h.find?, behind, hnext, get?_nextHandle]
  refine ⟨⟨t.next + 1, t.containers.insert t.next c⟩, ?_, ?_, ?_, ?_⟩
  · rw [register?, if_neg hmax, hfree, if_neg (by simp), h.next]
  · rw [nextHandle_register]
    simp [h.next]
  · intro handle
    rw [OrderedMap.find?_insert, h.find?, behind, behind, get?_register]
    by_cases he : handle = t.next
    · rw [if_pos he, if_pos (by rw [he, hnext])]
    · rw [if_neg he, if_neg]
      intro heq
      exact he (Int64.toInt_inj.1 (heq.trans hnext.symm))
  · rw [OrderedMap.size_insert hfree, h.size]
    simp [Session.size, Session.register]

theorem Simulates.present {t : WordTable} {s : Session} (h : t.Simulates s) (memory : Memory)
    (child : Child) (hlt : (s.present memory child).2.nextHandle < 2 ^ 63) :
    ∃ t', t.present? memory s.presentation.byteLimit child =
        some ((s.present memory child).1, t') ∧
      t'.Simulates (s.present memory child).2 := by
  cases child with
  | leaf name typeLabel value path => exact ⟨t, rfl, h⟩
  | node c =>
    rw [Session.present, nextHandle_register] at hlt
    obtain ⟨t', hgiven, hsim⟩ := h.register memory c hlt
    refine ⟨t', ?_, hsim⟩
    rw [present?, hgiven, Option.map_some, Int64.toInt_ofNat_of_lt (Nat.lt_of_succ_lt hlt)]
    rfl

theorem Simulates.presentAll {t : WordTable} {s : Session} (h : t.Simulates s) (memory : Memory)
    (children : List Child) (hlt : (s.presentAll memory children).2.nextHandle < 2 ^ 63) :
    ∃ t', t.presentAll? memory s.presentation.byteLimit children =
        some ((s.presentAll memory children).1, t') ∧
      t'.Simulates (s.presentAll memory children).2 := by
  induction children generalizing t s with
  | nil => exact ⟨t, rfl, h⟩
  | cons child children ih =>
    rw [presentAll_cons] at hlt ⊢
    have hmore := nextHandle_presentAll memory (s.present memory child).2 children
    obtain ⟨t₁, hfirst, hsim₁⟩ := h.present memory child (by dsimp only at hlt; omega)
    obtain ⟨t', hrest, hsim⟩ := ih hsim₁ hlt
    rw [presentation_present] at hrest
    refine ⟨t', ?_, hsim⟩
    rw [presentAll?, hfirst, Option.bind_some, hrest, Option.map_some]

theorem Simulates.answer {t : WordTable} {s : Session} (h : t.Simulates s) (memory : Memory)
    (request : Request) (hlt : (s.answer memory request).2.nextHandle < 2 ^ 63) :
    ∃ t', t.answer? memory s.presentation request = some ((s.answer memory request).1, t') ∧
      t'.Simulates (s.answer memory request).2 := by
  by_cases hne : request = .clear
  · subst hne
    exact ⟨_, rfl, simulates_clear h⟩
  have hfind : t.containers.find? = s.behind := funext h.find?
  rw [answer_eq memory s hne] at hlt ⊢
  cases hshown : request.shown memory s.presentation s.behind with
  | error e => exact ⟨t, by simp only [answer?, hfind, hshown], h⟩
  | ok children =>
    rw [hshown] at hlt
    obtain ⟨t', ht, hsim⟩ := h.presentAll memory children hlt
    exact ⟨t', by simp only [answer?, hfind, hshown, ht, Option.map_some, answerAll], hsim⟩

theorem Simulates.run {t : WordTable} {log : Log} (h : t.Simulates log.session)
    (turns : List (Memory × Request))
    (hlt : (turns.foldl Log.step log).session.nextHandle < 2 ^ 63) :
    ∃ t', t.run? log.session.presentation turns log.answers =
        some ((turns.foldl Log.step log).answers, t') ∧
      t'.Simulates (turns.foldl Log.step log).session := by
  induction turns generalizing t log with
  | nil => exact ⟨t, rfl, h⟩
  | cons turn turns ih =>
    have hmono := Log.nextHandle_le_foldl (log.step turn) turns
    rw [List.foldl_cons] at hlt ⊢
    rw [Log.session_step] at hmono
    obtain ⟨t₁, ht₁, hsim₁⟩ := h.answer turn.1 turn.2 (by omega)
    rw [← Log.session_step] at hsim₁
    obtain ⟨t', ht, hsim⟩ := ih hsim₁ hlt
    refine ⟨t', ?_, hsim⟩
    rw [Log.session_step, presentation_answer, Log.answers_step] at ht
    rw [run?, ht₁, Option.bind_some, ht]

end WordTable

theorem handles_run (settings : Settings) (turns : List (Memory × Request)) :
    let log := Log.run settings turns
    log.issued = (List.range' 1 log.issued.length).map Int.ofNat ∧
      log.session.size = log.recent.length ∧
      log.recent = log.grants.map Prod.fst ∧
      (∀ handle, log.session.contains handle = true ↔ handle ∈ log.recent) ∧
      (∀ handle c, log.session.get? handle = some c ↔ (handle, c) ∈ log.grants) ∧
      (∀ handle memory, handle ∈ log.recent →
        ∃ result, log.session.expand memory handle = .ok result) ∧
      (∀ handle memory, handle ∉ log.recent →
        log.session.expand memory handle = .error ⟨handle⟩) ∧
      (log.issued.length < 2 ^ 63 - 1 →
        ∃ t, WordTable.start.run? (Session.start settings).presentation turns [] =
            some (log.answers, t) ∧
          t.containers.size = log.recent.length ∧
          ∀ handle : Int64, t.containers.find? handle = log.session.get? handle.toInt) := by
  intro log
  have h : log.Sound := Log.sound_run settings turns
  refine ⟨h.issued_eq, h.size_eq, h.recent, fun _ => h.contains_iff_mem_recent,
    fun _ _ => h.get?_eq_some_iff_mem_grants, ?_, ?_, ?_⟩
  · intro handle memory hmem
    exact Log.expand_of_contains (h.contains_iff_mem_recent.2 hmem) memory
  · intro handle memory hmem
    exact Log.expand_of_not_contains (fun hc => hmem (h.contains_iff_mem_recent.1 hc)) memory
  · intro hcount
    have hlt : log.session.nextHandle < 2 ^ 63 := by
      rw [h.nextHandle_eq]
      omega
    have hstart : WordTable.start.Simulates (Log.start settings).session :=
      WordTable.simulates_start settings
    obtain ⟨t, ht, hsim⟩ := hstart.run turns hlt
    exact ⟨t, ht, hsim.size.trans h.size_eq, hsim.find?⟩

/-- A map entry with one half that can be expanded, registered before and after a clear. -/
theorem handles_run_cleared :
    let entry : Container := ⟨.mapEntry (.bytes [0x6B]) (.integer 7), "", none⟩
    let memory : Memory := ⟨.empty, fun _ => []⟩
    let turns : List (Memory × Request) := [(memory, .register entry), (memory, .expand 1),
      (memory, .clear), (memory, .register entry), (memory, .expand 2)]
    let log := Log.run {} turns
    log.issued = [1, 2, 3] ∧ log.recent = [3] ∧ log.issued.length < 2 ^ 63 - 1 ∧
      ∃ t, WordTable.start.run? (Session.start {}).presentation turns [] =
          some (log.answers, t) ∧
        t.containers.size = log.recent.length ∧
        ∀ handle : Int64, t.containers.find? handle = log.session.get? handle.toInt := by
  intro entry memory turns log
  have hcount : log.issued.length < 2 ^ 63 - 1 := by decide +kernel
  exact ⟨by decide +kernel, by decide +kernel, hcount,
    (handles_run {} turns).2.2.2.2.2.2.2 hcount⟩

end Session
end ScriptScope

import ScriptScope.Proofs.DebugInfo.Lookups
import ScriptScope.Proofs.Session.Requests

/-!
# ScriptScope.Proofs.Frame.Attachment

What a frame takes from the debug information that it is attached with.

The method of a frame is looked up once, under the script hash of the context. Debug information
looks methods up under its own hash each time. Both go by the ranges of the methods, and neither
picks one of several.

* `methodAt_eq_some_iff`: a frame has a method if and only if exactly one claims the address.
* `sourceLocation_attach`: where the two hashes are equal, so are the two locations.
* `ask_of_method_eq_none`: a frame without a method answers as if it had no debug information.
* `converse_attach`: so nothing that a client asks tells the two apart, in any order.
-/

namespace ScriptScope
namespace Frame

variable {context : Context} {info : DebugInfo} {m : Method}

/-! ## The method and its location -/

theorem methodAt_eq_some_iff :
    methodAt context info = some m ↔
      info.methods.filter
        (fun m => m.scriptHash = context.scriptHash && m.contains context.ip) = [m] := by
  rw [methodAt, Method.resolve_eq_only,
    ← @Method.only_eq_some_iff context.scriptHash context.ip]
  cases Method.only context.scriptHash context.ip _ with
  | error a => simp
  | ok found => simp

theorem methodAt_eq_none_of_countP (h : (info.methods.countP fun m =>
      m.scriptHash = context.scriptHash && m.contains context.ip) ≠ 1) :
    methodAt context info = none := by
  rw [Option.eq_none_iff_forall_ne_some]
  intro m hm
  apply h
  rw [List.countP_eq_length_filter, methodAt_eq_some_iff.1 hm]
  rfl

theorem methodAt_eq_none_of_scriptHash (h : ∀ m ∈ info.methods, m.scriptHash = info.scriptHash)
    (hne : info.scriptHash ≠ context.scriptHash) : methodAt context info = none := by
  rw [Option.eq_none_iff_forall_ne_some]
  intro m hm
  have hclaims : m ∈ info.methods.filter
      (fun m => m.scriptHash = context.scriptHash && m.contains context.ip) := by
    rw [methodAt_eq_some_iff.1 hm]
    exact List.mem_singleton_self m
  obtain ⟨hmem, hhash⟩ := List.mem_filter.1 hclaims
  rw [Bool.and_eq_true, decide_eq_true_eq] at hhash
  exact hne ((h m hmem).symm.trans hhash.1)

theorem sourceLocation_attach (context : Context) (info : DebugInfo)
    (showsStorage showsAltStack : Bool) :
    let frame := attach context (some info) showsStorage showsAltStack
    (info.scriptHash = context.scriptHash →
      frame.sourceLocation context =
        match info.locate context.ip with
        | .ok found => found
        | .error _ => none) ∧
      (info.Keyed → info.scriptHash ≠ context.scriptHash →
        frame.method = none ∧ ∀ now, frame.sourceLocation now = none) := by
  intro frame
  constructor
  · intro hhash
    have hframe : frame.sourceLocation context =
        (methodAt context info).map (info.locateIn · context.ip) := rfl
    rw [hframe, methodAt, ← hhash, DebugInfo.locate, DebugInfo.methodAt]
    cases Method.resolve info.methods info.scriptHash context.ip with
    | error a => rfl
    | ok found => rfl
  · intro hkeyed hne
    have hnone : frame.method = none := methodAt_eq_none_of_scriptHash hkeyed.scriptHash_eq hne
    refine ⟨hnone, ?_⟩
    intro now
    rw [sourceLocation, hnone]
    rfl

/-- A method and its copy in another script, with a sequence point that has no document. -/
theorem sourceLocation_attach_copied :
    let hash : ScriptHash := ⟨List.replicate 20 7, rfl⟩
    let point : SequencePoint := ⟨4, 9, ⟨1, 1⟩, ⟨1, 2⟩⟩
    let main : Method := ⟨"m", "", "Main", 0, 9, [], [], none, [point], .zero⟩
    let info : DebugInfo := ⟨.zero, "", [], [main, main.under hash]⟩
    let context : Context := ⟨.zero, 3, [], [], []⟩
    let other : Context := ⟨hash, 3, [], [], []⟩
    info.scriptHash = context.scriptHash ∧
      (attach context (some info) true true).sourceLocation context =
        some ⟨main, some point, none⟩ ∧
      (info.withScriptHash .zero).Keyed ∧
      (info.withScriptHash .zero).scriptHash ≠ other.scriptHash ∧
      (attach other (some (info.withScriptHash .zero)) true true).method = none := by
  intro hash point main info context other
  have hkeyed : (info.withScriptHash .zero).Keyed := .rekeyed info .zero
  have hne : (info.withScriptHash .zero).scriptHash ≠ other.scriptHash := by decide
  refine ⟨rfl, ?_, hkeyed, hne, ?_⟩
  · rw [(sourceLocation_attach context info true true).1 rfl]
    rfl
  · exact ((sourceLocation_attach other (info.withScriptHash .zero) true true).2 hkeyed hne).1

/-! ## Frames without a method -/

/-- What a client asks of a frame and its session. -/
inductive Query where
  | scopes
  | localVariables
  | evaluate (path : EvaluatePath)
  | evaluateText (text : String)
  | sourceLocation
  | name
  | stackContainer (stack : String)
  | currentLine (names : SyscallNames)
  | expand (handle : Int64)
  | clear

inductive Reply where
  | shown (answer : Session.Answer)
  | location (found : Option SourceLocation)
  | name (text : String)
  | stack (container : Option Container)
  | line (line : Except DecodeError Line)

/-- Answers a query with the machine as it is now. -/
def ask (frame : Frame) (context : Context) (memory : Memory) (s : Session) :
    Query → Reply × Session
  | .scopes => (s.answer memory (.scopes frame context)).map .shown id
  | .localVariables => (s.answer memory (.localVariables frame context)).map .shown id
  | .evaluate path => (s.answer memory (.evaluate frame context path)).map .shown id
  | .evaluateText text => (s.answer memory (.evaluateText frame context text)).map .shown id
  | .sourceLocation => (.location (frame.sourceLocation context), s)
  | .name => (.name (frame.name context), s)
  | .stackContainer stack => (.stack (stackContainer? context stack), s)
  | .currentLine names => (.line (Frame.currentLine context names), s)
  | .expand handle => (s.answer memory (.expand handle)).map .shown id
  | .clear => (s.answer memory .clear).map .shown id

/-- A query, and the machine that it finds. -/
structure Turn where
  context : Context
  memory : Memory
  query : Query

/-- Answers queries one after the other. -/
def converse (frame : Frame) : List Turn → Session → List Reply × Session
  | [], s => ([], s)
  | turn :: turns, s =>
    let first := frame.ask turn.context turn.memory s turn.query
    let rest := converse frame turns first.2
    (first.1 :: rest.1, rest.2)

variable {frame : Frame} {memory : Memory} {s : Session}

/-- Only the location is taken from the debug information itself, and there is none without a
method. -/
theorem ask_of_method_eq_none (h : frame.method = none) (info : Option DebugInfo) (query : Query) :
    ({ frame with info := info } : Frame).ask context memory s query =
      frame.ask context memory s query := by
  cases query with
  | scopes => rfl
  | localVariables => rfl
  | evaluate path => cases path <;> rfl
  | evaluateText text => rfl
  | sourceLocation => simp only [ask, sourceLocation, h, Option.map_none]
  | name => rfl
  | stackContainer stack => rfl
  | currentLine names => rfl
  | expand handle => rfl
  | clear => rfl

theorem converse_of_method_eq_none (h : frame.method = none) (info : Option DebugInfo)
    (turns : List Turn) (s : Session) :
    ({ frame with info := info } : Frame).converse turns s = frame.converse turns s := by
  induction turns generalizing s with
  | nil => rfl
  | cons turn turns ih =>
    rw [converse, converse, ask_of_method_eq_none h info turn.query, ih]

theorem converse_attach (context : Context) (info : DebugInfo) (showsStorage showsAltStack : Bool)
    (h : (info.methods.countP fun m =>
      m.scriptHash = context.scriptHash && m.contains context.ip) ≠ 1)
    (turns : List Turn) (s : Session) :
    (attach context (some info) showsStorage showsAltStack).converse turns s =
      (attach context none showsStorage showsAltStack).converse turns s := by
  let bare := attach context none showsStorage showsAltStack
  have hattach : attach context (some info) showsStorage showsAltStack =
      { bare with info := some info } := by
    rw [attach, Option.bind_some, methodAt_eq_none_of_countP h]
    rfl
  rw [hattach]
  exact converse_of_method_eq_none rfl (some info) turns s

/-- Two methods that claim the address and declare a local under one name. -/
theorem converse_attach_overlapping :
    let main : Method := ⟨"m", "", "Main", 0, 9, [⟨"total", ""⟩], [], none, [], .zero⟩
    let other : Method := ⟨"n", "", "Next", 5, 12, [⟨"total", ""⟩], [], none, [], .zero⟩
    let info : DebugInfo := ⟨.zero, "", [], [main, other]⟩
    let memory : Memory := ⟨⟨#[[.integer 7]], #[]⟩, fun _ => []⟩
    let context : Context := ⟨.zero, 5, [], [], [.array ⟨0⟩]⟩
    let turns : List Turn := [⟨context, memory, .evaluateText "total"⟩,
      ⟨context, memory, .scopes⟩, ⟨context, memory, .expand 1⟩, ⟨context, memory, .name⟩]
    (info.methods.countP fun m =>
        m.scriptHash = context.scriptHash && m.contains context.ip) = 2 ∧
      (attach context (some info) true true).converse turns (Session.start {}) =
        (attach context none true true).converse turns (Session.start {}) := by
  intro main other info memory context turns
  have hcount : (info.methods.countP fun m =>
      m.scriptHash = context.scriptHash && m.contains context.ip) = 2 := by decide
  refine ⟨hcount, converse_attach context info true true ?_ turns (Session.start {})⟩
  rw [hcount]
  decide

end Frame
end ScriptScope

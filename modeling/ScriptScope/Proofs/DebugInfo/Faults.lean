import ScriptScope.Proofs.DebugInfo.Grammar
import ScriptScope.Proofs.DebugInfo.Lookups

/-!
# ScriptScope.Proofs.DebugInfo.Faults

Which files of debug information are read, and what is reported of the others. `WellFormed` says
that every text in a file is one of the grammar. `Reports` says which fault comes first: that of the
hash, else one of the first method at fault, and of a method the range comes before the sequence
points, these before the parameters, and these before the variables.

A computation `Decides` between two such conditions. Computations that run one after the other do so
if each does (`Decides.bind`), and so does a reader that goes through a list (`Decides.mapM`); what
a file is follows from what its texts are.

* `decides_method`, `decides_info`: the entry of a method, and a file.
* `read_wellFormed_or_reports`: a document with the fields of a file is read if and only if it is
  well-formed, and any other is refused with its first fault.
-/

namespace ScriptScope

/-! ## Computations that may fail -/

/-- A computation that succeeds under one condition and else fails with the faults of another. -/
structure Decides (x : Except ε α) (sound : Prop) (fault : ε → Prop) : Prop where
  ok_iff : (∃ a, x = .ok a) ↔ sound
  error_iff : ∀ e, x = .error e ↔ fault e

/-- The fault of the first element of a list that has one. -/
inductive FirstFault (sound : α → Prop) (fault : α → ε → Prop) : List α → ε → Prop where
  | here {a : α} {as : List α} {e : ε} (hfault : fault a e) : FirstFault sound fault (a :: as) e
  | later {a : α} {as : List α} {e : ε} (hsound : sound a) (hrest : FirstFault sound fault as e) :
    FirstFault sound fault (a :: as) e

namespace Decides

theorem ok (a : α) : Decides (.ok a : Except ε α) True fun _ => False := by
  constructor <;> simp

theorem error (e : ε) : Decides (.error e : Except ε α) False (· = e) := by
  constructor <;> simp [eq_comm]

theorem congr {x : Except ε α} {sound sound' : Prop} {fault fault' : ε → Prop}
    (h : Decides x sound fault) (hsound : sound ↔ sound') (hfault : ∀ e, fault e ↔ fault' e) :
    Decides x sound' fault' :=
  ⟨h.ok_iff.trans hsound, fun e => (h.error_iff e).trans (hfault e)⟩

/-- Of two computations the second counts only if the first succeeds. -/
theorem bind {x : Except ε α} {f : α → Except ε β} {sound sound' : Prop} {fault fault' : ε → Prop}
    (hx : Decides x sound fault) (hf : ∀ a, Decides (f a) sound' fault') :
    Decides (x >>= f) (sound ∧ sound') fun e => fault e ∨ sound ∧ fault' e := by
  cases x with
  | error e =>
    have hnot : ¬sound := fun h => by simpa using hx.ok_iff.2 h
    constructor
    · exact iff_of_false (fun ⟨_, h⟩ => by cases h) fun h => hnot h.1
    · intro e'
      have hbind : (Except.error e >>= f) = .error e := rfl
      have hright : ¬(sound ∧ fault' e') := fun h => hnot h.1
      rw [hbind, or_iff_left hright, ← hx.error_iff, Except.error.injEq, Except.error.injEq]
  | ok a =>
    have hsound : sound := hx.ok_iff.1 ⟨a, rfl⟩
    have hnot : ∀ e, ¬fault e := fun e h => by cases (hx.error_iff e).2 h
    constructor
    · exact (hf a).ok_iff.trans (and_iff_right hsound).symm
    · intro e
      refine ((hf a).error_iff e).trans ?_
      rw [or_iff_right (hnot e), and_iff_right hsound]

theorem mapM {read : α → Except ε β} {sound : α → Prop} {fault : α → ε → Prop}
    (h : ∀ a, Decides (read a) (sound a) (fault a)) (as : List α) :
    Decides (as.mapM read) (∀ a ∈ as, sound a) (FirstFault sound fault as) := by
  induction as with
  | nil =>
    refine (Decides.ok []).congr (by simp) fun e => ?_
    exact iff_of_false id fun hfirst => by cases hfirst
  | cons a as ih =>
    rw [List.mapM_cons]
    refine ((h a).bind fun b => ih.bind fun bs => Decides.ok (b :: bs)).congr (by simp) fun e => ?_
    constructor
    · rintro (hfault | ⟨hsound, hrest | ⟨-, hnever⟩⟩)
      · exact .here hfault
      · exact .later hsound hrest
      · cases hnever
    · rintro (hfault | ⟨hsound, hrest⟩)
      · exact .inl hfault
      · exact .inr ⟨hsound, .inl hrest⟩

end Decides

namespace DebugFile

/-! ## Texts -/

def IsRange (text : String) : Prop :=
  ∃ start stop, Range start stop text.toList

def IsPoint (documents : Nat) (text : String) : Prop :=
  ∃ p, Point p text.toList ∧ p.document < documents

def IsDeclaration (text : String) : Prop :=
  ',' ∈ text.toList

def DeclarationFault (text : String) (fault : DebugFault) : Prop :=
  ¬IsDeclaration text ∧ fault = .invalidVariable text

theorem decides_point (documents : Nat) (text : String) :
    Decides (readPoint documents text) (IsPoint documents text) (PointFault documents text) where
  ok_iff := exists_congr fun _ => readPoint_eq_ok_iff
  error_iff _ := readPoint_eq_error_iff

theorem decides_declaration (text : String) :
    Decides (readDeclaration text) (IsDeclaration text) (DeclarationFault text) := by
  unfold readDeclaration DeclarationFault IsDeclaration
  cases hcut : Text.splitFirst ',' text.toList with
  | none =>
    have hnone := Text.splitFirst_eq_none_iff.1 hcut
    exact (Decides.error _).congr (by simpa using hnone) (by simp [hnone])
  | some parts =>
    have hmem : ',' ∈ text.toList := by simp [(Text.splitFirst_eq_some_iff.1 hcut).1]
    exact (Decides.ok _).congr (by simpa using hmem) (by simp [hmem])

end DebugFile

/-! ## Methods -/

namespace MethodEntry

open DebugFile

def readRange (entry : MethodEntry) : Except DebugFault (Nat × Nat) :=
  match readRange? entry.range.toList with
  | none => .error (.invalidRange entry.id entry.range)
  | some range => .ok range

theorem decides_range (entry : MethodEntry) :
    Decides entry.readRange (IsRange entry.range)
      fun fault => ¬IsRange entry.range ∧ fault = .invalidRange entry.id entry.range := by
  have hrange : IsRange entry.range ↔ ∃ range, readRange? entry.range.toList = some range := by
    simp only [IsRange, ← readRange?_eq_some_iff, Prod.exists]
  rw [hrange]
  unfold readRange
  cases readRange? entry.range.toList with
  | none => exact (Decides.error _).congr (by simp) (by simp)
  | some range => exact (Decides.ok _).congr (by simp) (by simp)

theorem method_eq (entry : MethodEntry) (hash : ScriptHash) (documents : Nat) :
    entry.method hash documents = do
      let (start, stop) ← entry.readRange
      let points ← entry.sequencePoints.mapM (readPoint documents)
      let parameters ← entry.parameters.mapM readDeclaration
      let locals ← entry.variables.mapM readDeclaration
      return {
        id := entry.id
        owner := entry.owner
        name := entry.name
        start := start
        stop := stop
        parameters := parameters
        «variables» := locals
        returnType := entry.returnType
        sequencePoints := sortPoints points
        scriptHash := hash } := by
  unfold method readRange
  cases readRange? entry.range.toList <;> rfl

structure WellFormed (documents : Nat) (entry : MethodEntry) : Prop where
  range : IsRange entry.range
  sequencePoints : ∀ text ∈ entry.sequencePoints, IsPoint documents text
  parameters : ∀ text ∈ entry.parameters, IsDeclaration text
  «variables» : ∀ text ∈ entry.variables, IsDeclaration text

/-- The fault that is reported of a method. -/
inductive Reports (documents : Nat) (entry : MethodEntry) : DebugFault → Prop where
  | range (hrange : ¬IsRange entry.range) :
    Reports documents entry (.invalidRange entry.id entry.range)
  | sequencePoint {fault : DebugFault} (hrange : IsRange entry.range)
    (hfault : FirstFault (IsPoint documents) (PointFault documents) entry.sequencePoints fault) :
    Reports documents entry fault
  | parameter {fault : DebugFault} (hrange : IsRange entry.range)
    (hpoints : ∀ text ∈ entry.sequencePoints, IsPoint documents text)
    (hfault : FirstFault IsDeclaration DeclarationFault entry.parameters fault) :
    Reports documents entry fault
  | «variable» {fault : DebugFault} (hrange : IsRange entry.range)
    (hpoints : ∀ text ∈ entry.sequencePoints, IsPoint documents text)
    (hparameters : ∀ text ∈ entry.parameters, IsDeclaration text)
    (hfault : FirstFault IsDeclaration DeclarationFault entry.variables fault) :
    Reports documents entry fault

theorem decides_method (entry : MethodEntry) (hash : ScriptHash) (documents : Nat) :
    Decides (entry.method hash documents) (entry.WellFormed documents)
      (entry.Reports documents) := by
  have hpoints := Decides.mapM (decides_point documents) entry.sequencePoints
  have hparameters := Decides.mapM decides_declaration entry.parameters
  have hlocals := Decides.mapM decides_declaration entry.variables
  rw [method_eq]
  refine (entry.decides_range.bind fun _ => hpoints.bind fun _ => hparameters.bind fun _ =>
    hlocals.bind fun _ => Decides.ok _).congr ?_ fun fault => ?_
  · constructor
    · rintro ⟨hrange, hpoints, hparameters, hlocals, -⟩
      exact ⟨hrange, hpoints, hparameters, hlocals⟩
    · rintro ⟨hrange, hpoints, hparameters, hlocals⟩
      exact ⟨hrange, hpoints, hparameters, hlocals, trivial⟩
  · constructor
    · rintro (⟨hrange, rfl⟩ | ⟨hrange, hrest⟩)
      · exact .range hrange
      rcases hrest with hfault | ⟨hpoints, hrest⟩
      · exact .sequencePoint hrange hfault
      rcases hrest with hfault | ⟨hparameters, hrest⟩
      · exact .parameter hrange hpoints hfault
      rcases hrest with hfault | ⟨-, hnever⟩
      · exact .variable hrange hpoints hparameters hfault
      · cases hnever
    · intro h
      cases h with
      | range hrange => exact .inl ⟨hrange, rfl⟩
      | sequencePoint hrange hfault => exact .inr ⟨hrange, .inl hfault⟩
      | parameter hrange hpoints hfault => exact .inr ⟨hrange, .inr ⟨hpoints, .inl hfault⟩⟩
      | «variable» hrange hpoints hparameters hfault =>
        exact .inr ⟨hrange, .inr ⟨hpoints, .inr ⟨hparameters, .inl hfault⟩⟩⟩

end MethodEntry

/-! ## Files -/

namespace DebugFile

structure WellFormed (file : DebugFile) : Prop where
  hash : ∀ text ∈ file.hash, ∃ hash, ScriptHash.parse text = .ok hash
  methods : ∀ entry ∈ file.methods, entry.WellFormed file.documents.length

/-- The fault that is reported of a file. -/
inductive Reports (file : DebugFile) : DebugFault → Prop where
  | hash {text : String} {fault : ScriptHash.Fault} (htext : file.hash = some text)
    (hfault : ScriptHash.parse text = .error fault) : Reports file (.invalidHash fault)
  | method {fault : DebugFault}
    (hhash : ∀ text ∈ file.hash, ∃ hash, ScriptHash.parse text = .ok hash)
    (hfault : FirstFault (MethodEntry.WellFormed file.documents.length)
      (MethodEntry.Reports file.documents.length) file.methods fault) : Reports file fault

theorem decides_scriptHash (file : DebugFile) :
    Decides file.scriptHash (∀ text ∈ file.hash, ∃ hash, ScriptHash.parse text = .ok hash)
      fun fault => ∃ text cause, file.hash = some text ∧ ScriptHash.parse text = .error cause ∧
        fault = .invalidHash cause := by
  unfold scriptHash
  cases file.hash with
  | none => exact (Decides.ok _).congr (by simp) (by simp)
  | some text =>
    simp only
    cases hparse : ScriptHash.parse text with
    | ok hash => exact (Decides.ok _).congr (by simp [hparse]) (by simp [hparse])
    | error cause => exact (Decides.error _).congr (by simp [hparse]) (by simp [hparse])

theorem decides_info (file : DebugFile) : Decides file.info file.WellFormed file.Reports := by
  have hmethods := fun hash => Decides.mapM
    (fun entry : MethodEntry => entry.decides_method hash file.documents.length) file.methods
  refine (file.decides_scriptHash.bind fun hash => (hmethods hash).bind fun _ =>
    Decides.ok _).congr ?_ fun fault => ?_
  · exact ⟨fun h => ⟨h.1, h.2.1⟩, fun h => ⟨h.hash, h.methods, trivial⟩⟩
  · constructor
    · rintro (⟨text, cause, htext, hcause, rfl⟩ | ⟨hhash, hfault | ⟨-, ⟨⟩⟩⟩)
      · exact .hash htext hcause
      · exact .method hhash hfault
    · rintro (⟨htext, hcause⟩ | ⟨hhash, hfault⟩)
      · exact .inl ⟨_, _, htext, hcause, rfl⟩
      · exact .inr ⟨hhash, .inl hfault⟩

end DebugFile

namespace DebugInfo

theorem read_wellFormed_or_reports {text : String} {file : DebugFile}
    (hfile : (Json.parse text).bind DebugFile.ofJson? = some file) :
    ((∃ info, DebugInfo.read text = .ok info) ↔ file.WellFormed) ∧
      ∀ fault, DebugInfo.read text = .error fault ↔ file.Reports fault := by
  have hread : DebugInfo.read text = file.info := by
    rw [DebugInfo.read, hfile]
  rw [hread]
  exact ⟨file.decides_info.ok_iff, file.decides_info.error_iff⟩

/-- Blanks and a plus sign in a point that is read, and behind it a point whose document is missing
and whose places are no places; a declaration without a comma comes too late. -/
theorem read_wellFormed_or_reports_unknownDocument :
    let text := r#"["0x0707070707070707070707070707070707070707", "", ["a.cs"], [
      ["m", "", "Main", " 0 - 9", ["x"], null, [], [" +5 [0] 1:1 - 1:2 ", "2[1]1:1-1"]],
      ["n", "", "Next", "8"]]]"#
    let entry : MethodEntry :=
      ⟨"m", "", "Main", " 0 - 9", ["x"], none, [], [" +5 [0] 1:1 - 1:2 ", "2[1]1:1-1"]⟩
    let file : DebugFile := ⟨some "0x0707070707070707070707070707070707070707", "", ["a.cs"],
      [entry, ⟨"n", "", "Next", "8", [], none, [], []⟩]⟩
    (Json.parse text).bind DebugFile.ofJson? = some file ∧ ¬file.WellFormed ∧
      DebugInfo.read text = .error (.unknownDocument "2[1]1:1-1" 1) := by
  intro text entry file
  have hfile : (Json.parse text).bind DebugFile.ofJson? = some file := by
    rw [Json.parse, String.toList_ofList]
    decide +kernel
  have hhash : ∀ text ∈ file.hash, ∃ hash, ScriptHash.parse text = .ok hash := by
    rintro _ ⟨⟩
    exact ⟨⟨List.replicate 20 7, rfl⟩, rfl⟩
  have hrange : DebugFile.IsRange " 0 - 9" := ⟨0, 9, DebugFile.readRange?_eq_some_iff.1 rfl⟩
  have hpoint : DebugFile.IsPoint 1 " +5 [0] 1:1 - 1:2 " :=
    (DebugFile.decides_point _ _).ok_iff.1 ⟨⟨5, 0, ⟨1, 1⟩, ⟨1, 2⟩⟩, rfl⟩
  have hmissing : DebugFile.PointFault 1 "2[1]1:1-1" (.unknownDocument "2[1]1:1-1" 1) :=
    ((DebugFile.decides_point _ _).error_iff _).1 rfl
  have hreport : file.Reports (.unknownDocument "2[1]1:1-1" 1) :=
    .method hhash (.here (.sequencePoint hrange (.later hpoint (.here hmissing))))
  obtain ⟨haccepts, hreports⟩ := read_wellFormed_or_reports hfile
  have hread := (hreports _).2 hreport
  refine ⟨hfile, fun hwell => ?_, hread⟩
  obtain ⟨info, hinfo⟩ := haccepts.2 hwell
  cases hread.symm.trans hinfo

end DebugInfo
end ScriptScope

import Mathlib.Data.List.Forall2
import ScriptScope.DebugInfo.Location
import ScriptScope.Proofs.DebugInfo.RoundTrip

/-!
# ScriptScope.Proofs.DebugInfo.Lookups

What debug information that was read from a file promises to those who look addresses up in it.

A lookup leaves out every method whose hash is not that of the contract, and every document that is
not in the list, without a word. `Consistent` information loses nothing that way: reading gives such
information, and so does any other hash that is put in afterwards.

* `info_eq_ok`, `method_eq_ok`: what was read, entry by entry.
* `Consistent.methodAt_eq`: the ranges alone decide which method contains an address.
* `Consistent.locate_withScriptHash`: another hash changes no lookup.
* `guarantees_of_read`: all of it for what is read from a text.
-/

namespace ScriptScope

/-! ## What was read -/

namespace DebugFile

theorem bind_eq_ok_iff {x : Except ε α} {f : α → Except ε β} {b : β} :
    x >>= f = .ok b ↔ ∃ a, x = .ok a ∧ f a = .ok b := by
  cases x <;> simp [bind, Except.bind]

/-- Reading a list succeeds when it does for each element. -/
theorem mapM_eq_ok_iff {read : α → Except ε β} {as : List α} {bs : List β} :
    as.mapM read = .ok bs ↔ List.Forall₂ (fun a b => read a = .ok b) as bs := by
  induction as generalizing bs with
  | nil =>
    rw [List.mapM_nil, List.forall₂_nil_left_iff]
    exact ⟨fun h => (Except.ok.inj h).symm, fun h => h ▸ rfl⟩
  | cons a as ih =>
    simp only [List.mapM_cons, bind_eq_ok_iff, List.forall₂_cons_left_iff, ih]
    constructor
    · rintro ⟨b, hb, rest, hrest, hbs⟩
      exact ⟨b, rest, hb, hrest, (Except.ok.inj hbs).symm⟩
    · rintro ⟨b, rest, hb, hrest, rfl⟩
      exact ⟨b, hb, rest, hrest, rfl⟩

theorem exists_of_mem_forall₂ {r : α → β → Prop} {as : List α} {bs : List β}
    (h : List.Forall₂ r as bs) : ∀ b ∈ bs, ∃ a ∈ as, r a b := by
  induction h with
  | nil =>
    intro b hb
    cases hb
  | cons hab _ ih =>
    intro b hb
    rcases List.mem_cons.1 hb with rfl | hb
    · exact ⟨_, List.mem_cons_self, hab⟩
    · obtain ⟨a, ha, hr⟩ := ih b hb
      exact ⟨a, List.mem_cons_of_mem _ ha, hr⟩

theorem document_lt_of_readPoint {documents : Nat} {text : String} {p : SequencePoint}
    (h : readPoint documents text = .ok p) : p.document < documents := by
  unfold readPoint at h
  split at h
  · cases h
  split at h
  · split at h
    · cases h
    · next hlt =>
      split at h
      · cases h
        exact Nat.not_le.1 hlt
      · cases h
  · cases h

/-- The sequence points of a method are those that its entry lists, sorted. -/
def SortsPoints (documents : Nat) (entry : MethodEntry) (m : Method) : Prop :=
  ∃ listed, List.Forall₂ (fun text p => readPoint documents text = .ok p)
      entry.sequencePoints listed ∧
    SequencePoint.SortsTo listed m.sequencePoints

variable {file : DebugFile} {info : DebugInfo} {entry : MethodEntry} {m : Method}
  {hash : ScriptHash} {documents : Nat}

theorem method_eq_ok (h : entry.method hash documents = .ok m) :
    m.scriptHash = hash ∧ SortsPoints documents entry m := by
  unfold MethodEntry.method at h
  split at h
  · cases h
  obtain ⟨listed, hlisted, h⟩ := bind_eq_ok_iff.1 h
  obtain ⟨parameters, -, h⟩ := bind_eq_ok_iff.1 h
  obtain ⟨locals, -, h⟩ := bind_eq_ok_iff.1 h
  cases h
  exact ⟨rfl, listed, mapM_eq_ok_iff.1 hlisted, sortPoints_eq_iff.1 rfl⟩

theorem info_eq_ok (h : file.info = .ok info) :
    info.documents = file.documents ∧ List.Forall₂
      (fun entry m => entry.method info.scriptHash file.documents.length = .ok m)
      file.methods info.methods := by
  obtain ⟨hash, -, h⟩ := bind_eq_ok_iff.1 h
  obtain ⟨methods, hmethods, h⟩ := bind_eq_ok_iff.1 h
  cases h
  exact ⟨rfl, mapM_eq_ok_iff.1 hmethods⟩

end DebugFile

theorem DebugInfo.read_eq_ok {text : String} {info : DebugInfo}
    (h : DebugInfo.read text = .ok info) :
    ∃ file, (Json.parse text).bind DebugFile.ofJson? = some file ∧ file.info = .ok info := by
  unfold DebugInfo.read at h
  split at h
  · cases h
  · next file hfile => exact ⟨file, hfile, h⟩

/-! ## Lookups -/

/-- The method as part of another script. -/
def Method.under (hash : ScriptHash) (m : Method) : Method :=
  { m with scriptHash := hash }

def SourceLocation.under (hash : ScriptHash) (location : SourceLocation) : SourceLocation :=
  { location with method := location.method.under hash }

/-- The outcome of a lookup in another script. -/
def Ambiguity.foundUnder (hash : ScriptHash) (under : α → α) :
    Except Ambiguity (Option α) → Except Ambiguity (Option α)
  | .ok found => .ok (found.map under)
  | .error a => .error { a with scriptHash := hash }

namespace Method

/-- The method among those that claim an address, if it is the only one. -/
def only (hash : ScriptHash) (ip : Nat) : List Method → Except Ambiguity (Option Method)
  | [] => .ok none
  | [m] => .ok (some m)
  | several => .error ⟨hash, ip, several.map Method.id⟩

theorem resolve_eq_only (methods : List Method) (hash : ScriptHash) (ip : Nat) :
    resolve methods hash ip =
      only hash ip (methods.filter fun m => m.scriptHash = hash && m.contains ip) := by
  unfold resolve
  generalize methods.filter (fun m => m.scriptHash = hash && m.contains ip) = claimants
  match claimants with
  | [] => rfl
  | [m] => rfl
  | m :: n :: rest => rfl

theorem only_eq_some_iff {hash : ScriptHash} {ip : Nat} {methods : List Method} {m : Method} :
    only hash ip methods = .ok (some m) ↔ methods = [m] := by
  match methods with
  | [] => simp [only]
  | [n] => simp [only]
  | n :: l :: rest => simp [only]

theorem only_map_under (hash other : ScriptHash) (ip : Nat) (methods : List Method) :
    only hash ip (methods.map (under hash)) =
      Ambiguity.foundUnder hash (under hash) (only other ip methods) := by
  match methods with
  | [] => rfl
  | [m] => rfl
  | m :: n :: rest =>
    have hids : ((m :: n :: rest).map (under hash)).map id = (m :: n :: rest).map id := by
      rw [List.map_map]
      rfl
    exact congrArg (fun ids => Except.error (Ambiguity.mk hash ip ids)) hids

end Method

theorem mem_of_activeBy {address : α → Nat} {xs : List α} {ip : Nat} {x : α}
    (h : activeBy address xs ip = some x) : x ∈ xs := by
  unfold activeBy at h
  split at h
  · next found hfind =>
    cases h
    exact List.mem_of_find?_eq_some hfind
  · cases xs with
    | nil => cases h
    | cons first rest =>
      simp only at h
      split at h
      · cases h
        exact List.mem_cons_self
      · obtain ⟨⟨a, b⟩, hfind, rfl⟩ := Option.map_eq_some_iff.1 h
        exact (List.of_mem_zip (List.mem_of_find?_eq_some hfind)).1

namespace DebugInfo

/-- One hash for all methods, and a document for each of their sequence points. -/
structure Consistent (info : DebugInfo) : Prop where
  scriptHash : ∀ m ∈ info.methods, m.scriptHash = info.scriptHash
  document : ∀ m ∈ info.methods, ∀ p ∈ m.sequencePoints, ∃ d, info.document? p = some d

theorem mem_methods_withScriptHash {info : DebugInfo} {hash : ScriptHash} {m : Method} :
    m ∈ (info.withScriptHash hash).methods ↔ ∃ n ∈ info.methods, n.under hash = m :=
  List.mem_map

theorem scriptHash_of_mem_withScriptHash {info : DebugInfo} {hash : ScriptHash} {m : Method}
    (h : m ∈ (info.withScriptHash hash).methods) : m.scriptHash = hash := by
  obtain ⟨n, -, rfl⟩ := mem_methods_withScriptHash.1 h
  rfl

variable {text : String} {info : DebugInfo} {ip : Nat}

theorem consistent_of_read (h : DebugInfo.read text = .ok info) : info.Consistent := by
  obtain ⟨file, -, hinfo⟩ := read_eq_ok h
  obtain ⟨hdocuments, hmethods⟩ := DebugFile.info_eq_ok hinfo
  constructor
  · intro m hm
    obtain ⟨entry, -, hentry⟩ := DebugFile.exists_of_mem_forall₂ hmethods m hm
    exact (DebugFile.method_eq_ok hentry).1
  · intro m hm p hp
    obtain ⟨entry, -, hentry⟩ := DebugFile.exists_of_mem_forall₂ hmethods m hm
    obtain ⟨-, listed, hlisted, hsorted⟩ := DebugFile.method_eq_ok hentry
    -- sorting adds no point, so each was read from a text that names a document
    have hmem : p ∈ listed := (DebugFile.mem_iff_of_filter_eq hsorted.stable p).1 hp
    obtain ⟨text, -, htext⟩ := DebugFile.exists_of_mem_forall₂ hlisted p hmem
    have hlt : p.document < info.documents.length := by
      rw [hdocuments]
      exact DebugFile.document_lt_of_readPoint htext
    exact ⟨_, List.getElem?_eq_getElem hlt⟩

/-- Debug information whose methods got their hash with it. -/
inductive Keyed : DebugInfo → Prop where
  | read {text : String} {info : DebugInfo} (h : DebugInfo.read text = .ok info) : Keyed info
  | rekeyed (info : DebugInfo) (hash : ScriptHash) : Keyed (info.withScriptHash hash)

theorem Keyed.scriptHash_eq (h : info.Keyed) :
    ∀ m ∈ info.methods, m.scriptHash = info.scriptHash := by
  cases h with
  | read h => exact (consistent_of_read h).scriptHash
  | rekeyed base hash => exact fun _ => scriptHash_of_mem_withScriptHash

namespace Consistent

variable (h : info.Consistent)
include h

theorem withScriptHash (hash : ScriptHash) : (info.withScriptHash hash).Consistent where
  scriptHash _ := scriptHash_of_mem_withScriptHash
  document m hm := by
    obtain ⟨n, hn, rfl⟩ := mem_methods_withScriptHash.1 hm
    exact h.document n hn

theorem methodAt_eq (ip : Nat) :
    info.methodAt ip = Method.only info.scriptHash ip (info.methods.filter (·.contains ip)) := by
  rw [methodAt, Method.resolve_eq_only]
  congr 1
  apply List.filter_congr
  intro m hm
  simp [h.scriptHash m hm]

theorem methodAt_withScriptHash (hash : ScriptHash) (ip : Nat) :
    (info.withScriptHash hash).methodAt ip =
      Ambiguity.foundUnder hash (Method.under hash) (info.methodAt ip) := by
  rw [(h.withScriptHash hash).methodAt_eq, h.methodAt_eq,
    ← Method.only_map_under hash info.scriptHash]
  -- the range of a method is the same in every script
  exact congrArg (Method.only hash ip) List.filter_map

theorem locate_withScriptHash (hash : ScriptHash) (ip : Nat) :
    (info.withScriptHash hash).locate ip =
      Ambiguity.foundUnder hash (SourceLocation.under hash) (info.locate ip) := by
  rw [locate, locate, h.methodAt_withScriptHash]
  cases info.methodAt ip with
  | error a => rfl
  | ok found => cases found <;> rfl

theorem document_of_locate {location : SourceLocation} {p : SequencePoint}
    (hlocate : info.locate ip = .ok (some location)) (hp : location.point = some p) :
    ∃ d, location.document = some d ∧ info.document? p = some d := by
  rw [locate, h.methodAt_eq] at hlocate
  cases honly : Method.only info.scriptHash ip (info.methods.filter (·.contains ip)) with
  | error a => rw [honly] at hlocate; cases hlocate
  | ok found =>
    rw [honly] at hlocate
    cases found with
    | none => cases hlocate
    | some m =>
      cases hlocate
      have hm : m ∈ info.methods := by
        apply List.mem_of_mem_filter
        rw [Method.only_eq_some_iff.1 honly]
        exact List.mem_singleton_self m
      obtain ⟨d, hd⟩ := h.document m hm p (mem_of_activeBy hp)
      refine ⟨d, ?_, hd⟩
      simp only [locateIn] at hp ⊢
      rw [hp]
      exact hd

end Consistent

/-- What debug information read from a file promises to the lookups. -/
structure Guarantees (file : DebugFile) (info : DebugInfo) : Prop extends Consistent info where
  documents : info.documents = file.documents
  points : List.Forall₂ (DebugFile.SortsPoints file.documents.length) file.methods info.methods
  location : ∀ ip location p, info.locate ip = .ok (some location) → location.point = some p →
    ∃ d, location.document = some d ∧ info.document? p = some d
  /-- No method is left out for its hash. -/
  methodAt : ∀ ip,
    info.methodAt ip = Method.only info.scriptHash ip (info.methods.filter (·.contains ip))
  methodAt_under : ∀ hash ip, (info.withScriptHash hash).methodAt ip =
    Ambiguity.foundUnder hash (Method.under hash) (info.methodAt ip)
  locate_under : ∀ hash ip, (info.withScriptHash hash).locate ip =
    Ambiguity.foundUnder hash (SourceLocation.under hash) (info.locate ip)

theorem Consistent.guarantees {file : DebugFile} (h : info.Consistent)
    (hdocuments : info.documents = file.documents)
    (hpoints : List.Forall₂ (DebugFile.SortsPoints file.documents.length) file.methods
      info.methods) :
    info.Guarantees file where
  toConsistent := h
  documents := hdocuments
  points := hpoints
  location _ _ _ := h.document_of_locate
  methodAt := h.methodAt_eq
  methodAt_under := h.methodAt_withScriptHash
  locate_under := h.locate_withScriptHash

theorem guarantees_of_read (h : DebugInfo.read text = .ok info) :
    ∃ file, (Json.parse text).bind DebugFile.ofJson? = some file ∧ Guarantees file info ∧
      ∀ hash, Guarantees file (info.withScriptHash hash) := by
  have hconsistent := consistent_of_read h
  obtain ⟨file, hfile, hinfo⟩ := read_eq_ok h
  obtain ⟨hdocuments, hmethods⟩ := DebugFile.info_eq_ok hinfo
  have hpoints := hmethods.imp fun entry m hm => (DebugFile.method_eq_ok hm).2
  refine ⟨file, hfile, hconsistent.guarantees hdocuments hpoints, ?_⟩
  intro hash
  apply (hconsistent.withScriptHash hash).guarantees hdocuments
  exact List.forall₂_map_right_iff.2 hpoints

/-- Sequence points out of order and two methods over one address, in a file without a hash. -/
theorem guarantees_of_read_overlapping :
    let text := r#"[null, "", ["a.cs", "b.cs"], [
      ["m", "", "Main", "0-9", [], null, [], ["5[1]1:1-1:2", "2[0]3:1-3:2", "5[0]2:1-2:2"]],
      ["n", "", "Next", "8-12"]]]"#
    let first : SequencePoint := ⟨2, 0, ⟨3, 1⟩, ⟨3, 2⟩⟩
    let second : SequencePoint := ⟨5, 1, ⟨1, 1⟩, ⟨1, 2⟩⟩
    let third : SequencePoint := ⟨5, 0, ⟨2, 1⟩, ⟨2, 2⟩⟩
    let main : Method := ⟨"m", "", "Main", 0, 9, [], [], none, [first, second, third], .zero⟩
    let next : Method := ⟨"n", "", "Next", 8, 12, [], [], none, [], .zero⟩
    let info : DebugInfo := ⟨.zero, "", ["a.cs", "b.cs"], [main, next]⟩
    let hash : ScriptHash := ⟨List.replicate 20 7, rfl⟩
    DebugInfo.read text = .ok info ∧
      (info.withScriptHash hash).locate 5 =
        .ok (some ⟨main.under hash, some second, some "b.cs"⟩) ∧
      (info.withScriptHash hash).methodAt 8 = .error ⟨hash, 8, ["m", "n"]⟩ := by
  intro text first second third main next info hash
  let file : DebugFile := ⟨none, "", ["a.cs", "b.cs"],
    [⟨"m", "", "Main", "0-9", [], none, [], ["5[1]1:1-1:2", "2[0]3:1-3:2", "5[0]2:1-2:2"]⟩,
      ⟨"n", "", "Next", "8-12", [], none, [], []⟩]⟩
  have hfile : (Json.parse text).bind DebugFile.ofJson? = some file := by
    rw [Json.parse, String.toList_ofList]
    decide +kernel
  have hsorted : DebugFile.sortPoints [second, first, third] = [first, second, third] := by
    rw [DebugFile.sortPoints_eq_iff]
    refine ⟨by decide, ?_⟩
    intro address
    by_cases haddress : first.address = address
    · subst haddress
      decide
    · simp [List.filter_cons, haddress]
  have hread : DebugInfo.read text = .ok info := by
    rw [DebugInfo.read, hfile]
    show Except.ok (⟨.zero, "", ["a.cs", "b.cs"],
      [{ main with sequencePoints := DebugFile.sortPoints [second, first, third] },
        { next with sequencePoints := DebugFile.sortPoints [] }]⟩ : DebugInfo) = _
    rw [hsorted, DebugFile.sortPoints, List.mergeSort_nil]
  obtain ⟨_, -, hguarantees, -⟩ := guarantees_of_read hread
  refine ⟨hread, ?_, ?_⟩
  · rw [hguarantees.locate_under]
    rfl
  · rw [hguarantees.methodAt_under]
    rfl

end DebugInfo
end ScriptScope

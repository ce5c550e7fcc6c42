import ScriptScope.Toml

/-!
# ScriptScope.Proofs.Toml.Tables

Pairs that stand under no header. Two keys are `Apart` if neither leads through the other; pairs
whose keys are apart never get into each other's way, in whatever order they come.

* `exists_insert`: a pair whose place is free (`Free`) is added; it is found under its key, the
  tables under other keys are as before, and a place that is apart from it stays free.
* `exists_build`: so a document of such pairs has its tables, each pair is found in them, and a key
  with which no pair begins is not.
-/

namespace ScriptScope
namespace Toml

namespace KeyPath

def names (k : KeyPath) : List String :=
  k.parents ++ [k.last]

/-- The name that a key begins with. -/
def first (k : KeyPath) : String :=
  k.parents.headD k.last

/-- Neither key leads through the other. -/
def Apart (p q : KeyPath) : Prop :=
  ¬p.names <+: q.names ∧ ¬q.names <+: p.names

theorem Apart.symm {p q : KeyPath} (h : Apart p q) : Apart q p :=
  ⟨h.2, h.1⟩

theorem exists_names (k : KeyPath) : ∃ more, k.names = k.first :: more := by
  obtain ⟨parents, last⟩ := k
  cases parents with
  | nil => exact ⟨[], rfl⟩
  | cons name parents => exact ⟨parents ++ [last], rfl⟩

theorem apart_key_iff {last : String} {q : KeyPath} : Apart ⟨[], last⟩ q ↔ q.first ≠ last := by
  obtain ⟨more, hnames⟩ := q.exists_names
  have hkey : names ⟨[], last⟩ = [last] := rfl
  rw [Apart, hkey, hnames, List.cons_prefix_cons, List.cons_prefix_cons]
  constructor
  · rintro ⟨hfront, -⟩ hfirst
    exact hfront ⟨hfirst.symm, List.nil_prefix⟩
  · intro hfirst
    exact ⟨fun h => hfirst h.1.symm, fun h => hfirst h.1⟩

theorem apart_cons_iff {key last last' : String} {parents parents' : List String} :
    Apart ⟨key :: parents, last⟩ ⟨key :: parents', last'⟩ ↔
      Apart ⟨parents, last⟩ ⟨parents', last'⟩ := by
  simp [Apart, names, List.cons_prefix_cons]

end KeyPath

namespace Entries

section Adjust

variable {key : String} {f : Option Node → Option Node} {node : Node}

theorem find?_cons (other : String) (inner : Node) (rest : Entries) (name : String) :
    find? ((other, inner) :: rest) name = if other = name then some inner else find? rest name := by
  unfold find?
  rw [List.find?_cons]
  by_cases h : other = name <;> simp [h]

theorem exists_adjust {entries : Entries} (h : f (entries.find? key) = some node) :
    ∃ changed, adjust key f entries = some changed ∧ changed.find? key = some node ∧
      ∀ other, other ≠ key → changed.find? other = entries.find? other := by
  induction entries with
  | nil =>
    have hnode : f none = some node := h
    refine ⟨[(key, node)], by rw [adjust, hnode]; rfl, by simp [find?], fun other hother => ?_⟩
    rw [find?_cons, if_neg hother.symm]
  | cons entry rest ih =>
    obtain ⟨name, inner⟩ := entry
    by_cases hname : name = key
    · rw [find?_cons, if_pos hname] at h
      refine ⟨(name, node) :: rest, by rw [adjust, if_pos hname, h]; rfl, ?_,
        fun other hother => ?_⟩
      · rw [find?_cons, if_pos hname]
      · have hne : name ≠ other := fun he => hother (he.symm.trans hname)
        rw [find?_cons, find?_cons, if_neg hne, if_neg hne]
    · rw [find?_cons, if_neg hname] at h
      obtain ⟨changed, hadjust, hkey, hothers⟩ := ih h
      refine ⟨(name, inner) :: changed, by rw [adjust, if_neg hname, hadjust]; rfl, ?_,
        fun other hother => ?_⟩
      · rw [find?_cons, if_neg hname, hkey]
      · rw [find?_cons, find?_cons, hothers other hother]

end Adjust

/-- Whether the place of a key is free: its way leads through tables of dotted keys as far as there
are any, and nothing is at its end. -/
inductive Free (last : String) : List String → Entries → Prop where
  | here {entries : Entries} : entries.find? last = none → Free last [] entries
  | new {key : String} {parents : List String} {entries : Entries} :
      entries.find? key = none → Free last (key :: parents) entries
  | within {key : String} {parents : List String} {entries inner : Entries} :
      entries.find? key = some (.table .dotted inner) → Free last parents inner →
      Free last (key :: parents) entries

theorem free_nil (last : String) (parents : List String) : Free last parents [] := by
  cases parents with
  | nil => exact .here rfl
  | cons key parents => exact .new rfl

/-- A place stays free if nothing changes under the name that leads to it. -/
theorem Free.congr {last : String} {parents : List String} {entries changed : Entries}
    (h : Free last parents entries)
    (hsame : changed.find? (parents.headD last) = entries.find? (parents.headD last)) :
    Free last parents changed := by
  cases h with
  | here hnone => exact .here (hsame.trans hnone)
  | new hnone => exact .new (hsame.trans hnone)
  | within htable hinner => exact .within (hsame.trans htable) hinner

/-- The tables that the way to a place goes through, from the first name on. -/
theorem Free.exists_inner {key last : String} {parents : List String} {entries : Entries}
    (h : Free last (key :: parents) entries) (value : Value) :
    ∃ inner, Free last parents inner ∧
      (∀ changed, insert last value parents inner = some changed →
        ∃ whole, insert last value (key :: parents) entries = some whole ∧
          whole.find? key = some (.table .dotted changed) ∧
          ∀ name, name ≠ key → whole.find? name = entries.find? name) ∧
      ∀ other others, Free other (key :: others) entries → Free other others inner := by
  cases h with
  | new hnone =>
    refine ⟨[], free_nil last parents, fun changed hchanged => ?_,
      fun other others _ => free_nil other others⟩
    rw [insert]
    exact exists_adjust (by rw [hnone, hchanged]; rfl)
  | @within _ _ _ inner htable hinner =>
    refine ⟨inner, hinner, fun changed hchanged => ?_, fun other others hother => ?_⟩
    · rw [insert]
      exact exists_adjust (by rw [htable]; simp only [hchanged]; rfl)
    · cases hother with
      | new hnone =>
        rw [htable] at hnone
        cases hnone
      | within htable' hinner' =>
        rw [htable] at htable'
        cases htable'
        exact hinner'

/-- The induction is on the way to the place. -/
theorem exists_insert {last : String} {parents : List String} {entries : Entries} (value : Value)
    (h : Free last parents entries) :
    ∃ changed, insert last value parents entries = some changed ∧
      (parents = [] → changed.find? last = some (.leaf value)) ∧
      (∀ name, name ≠ parents.headD last → changed.find? name = entries.find? name) ∧
      ∀ q : KeyPath, KeyPath.Apart ⟨parents, last⟩ q → Free q.last q.parents entries →
        Free q.last q.parents changed := by
  induction parents generalizing entries with
  | nil =>
    cases h with
    | here hnone =>
      have hinsert : ∃ changed, insert last value [] entries = some changed ∧
          changed.find? last = some (.leaf value) ∧
          ∀ name, name ≠ last → changed.find? name = entries.find? name := by
        rw [insert]
        exact exists_adjust (by rw [hnone])
      obtain ⟨changed, hadjust, hlast, hothers⟩ := hinsert
      refine ⟨changed, hadjust, fun _ => hlast, hothers, fun q hapart hfree => ?_⟩
      exact hfree.congr (hothers _ (KeyPath.apart_key_iff.1 hapart))
  | cons key parents ih =>
    obtain ⟨inner, hinner, hinsert, hwithin⟩ := h.exists_inner value
    obtain ⟨changed, hchanged, -, -, hstays⟩ := ih hinner
    obtain ⟨whole, hwhole, hkey, hothers⟩ := hinsert changed hchanged
    refine ⟨whole, hwhole, fun hnil => absurd hnil (List.cons_ne_nil _ _), hothers, ?_⟩
    rintro ⟨others, other⟩ hapart hfree
    cases others with
    | nil => exact hfree.congr (hothers _ (KeyPath.apart_key_iff.1 hapart.symm).symm)
    | cons name others =>
      by_cases hname : name = key
      · subst hname
        exact .within hkey (hstays ⟨others, other⟩ (KeyPath.apart_cons_iff.1 hapart)
          (hwithin other others hfree))
      · exact hfree.congr (hothers _ hname)

end Entries

/-- Pairs on lines of their own. -/
def pairStatements (pairs : List (KeyPath × Value)) : List Statement :=
  pairs.map fun p => .pair p.1 p.2

/-- The induction is on the pairs still to come, whose places are free in the tables so far. -/
theorem exists_run {pairs : List (KeyPath × Value)} (hsound : ∀ p ∈ pairs, p.2.isSound = true)
    (hapart : pairs.Pairwise fun p q => p.1.Apart q.1) {root : Entries}
    (hfree : ∀ p ∈ pairs, Entries.Free p.1.last p.1.parents root) :
    ∃ built, Builder.run ⟨root, []⟩ (pairStatements pairs) = some ⟨built, []⟩ ∧
      (∀ p ∈ pairs, p.1.parents = [] → built.find? p.1.last = some (.leaf p.2)) ∧
      ∀ name, (∀ p ∈ pairs, p.1.first ≠ name) → built.find? name = root.find? name := by
  induction pairs generalizing root with
  | nil => exact ⟨root, rfl, by simp, fun _ _ => rfl⟩
  | cons pair pairs ih =>
    obtain ⟨⟨parents, last⟩, value⟩ := pair
    obtain ⟨hpair, hsound⟩ := List.forall_mem_cons.1 hsound
    obtain ⟨hplace, hplaces⟩ := List.forall_mem_cons.1 hfree
    obtain ⟨hahead, hapart⟩ := List.pairwise_cons.1 hapart
    obtain ⟨changed, hchanged, hlast, hothers, hstays⟩ := Entries.exists_insert value hplace
    have hplaces' : ∀ p ∈ pairs, Entries.Free p.1.last p.1.parents changed := fun p hp =>
      hstays p.1 (hahead p hp) (hplaces p hp)
    obtain ⟨built, hbuilt, hfound, hsame⟩ := ih hsound hapart hplaces'
    have hstep : Builder.step ⟨root, []⟩ (.pair ⟨parents, last⟩ value) = some ⟨changed, []⟩ := by
      simp only [Builder.step]
      rw [if_pos hpair, Entries.insertUnder, hchanged]
      rfl
    refine ⟨built, ?_, List.forall_mem_cons.2 ⟨fun hnil => ?_, hfound⟩, fun name hname => ?_⟩
    · rw [← hbuilt]
      simp only [pairStatements, Builder.run, List.map_cons, List.foldlM_cons, hstep]
      rfl
    · have hnil : parents = [] := hnil
      subst hnil
      exact (hsame last fun p hp => KeyPath.apart_key_iff.1 (hahead p hp)).trans (hlast rfl)
    · obtain ⟨hfirst, hname⟩ := List.forall_mem_cons.1 hname
      exact (hsame name hname).trans (hothers name hfirst.symm)

theorem exists_build {pairs : List (KeyPath × Value)} (hsound : ∀ p ∈ pairs, p.2.isSound = true)
    (hapart : pairs.Pairwise fun p q => p.1.Apart q.1) :
    ∃ built, build (pairStatements pairs) = some built ∧
      (∀ p ∈ pairs, p.1.parents = [] → built.find? p.1.last = some (.leaf p.2)) ∧
      ∀ name, (∀ p ∈ pairs, p.1.first ≠ name) → built.find? name = none := by
  have hfree : ∀ p ∈ pairs, Entries.Free p.1.last p.1.parents [] := fun p _ =>
    Entries.free_nil p.1.last p.1.parents
  obtain ⟨built, hbuilt, hfound, hsame⟩ := exists_run hsound hapart hfree
  exact ⟨built, by rw [build, hbuilt]; rfl, hfound, hsame⟩

end Toml
end ScriptScope

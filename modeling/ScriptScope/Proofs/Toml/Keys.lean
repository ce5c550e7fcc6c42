import ScriptScope.Proofs.Toml.Strings
import ScriptScope.Toml.Reader

/-!
# ScriptScope.Proofs.Toml.Keys

A key is read from the characters that write it. A bare name ends at the first character that can
not stand in it, so the text behind must not go on with the name (`Stops`); behind blanks there must
be no dot, which would go on with the key.

* `extendsAt_simpleKey?`: one name, bare or in quotes.
* `keyOf?_append`: names with dots between them, and the blanks of the line behind the last.
-/

namespace ScriptScope
namespace Toml

variable {more : List Char}

/-! ## Words and blanks -/

/-- No word of these characters goes on into a text. -/
def Stops (p : Char → Bool) (more : List Char) : Prop :=
  ∀ c ∈ more.head?, p c = false

section

variable {p : Char → Bool}

theorem takeWhile_of_stops (h : Stops p more) : more.takeWhile p = [] := by
  cases more with
  | nil => rfl
  | cons c more => rw [List.takeWhile_cons, h c rfl]; rfl

theorem dropWhile_of_stops (h : Stops p more) : more.dropWhile p = more := by
  cases more with
  | nil => rfl
  | cons c more => rw [List.dropWhile_cons, h c rfl]; rfl

theorem takeWhile_append_of_stops (h : Stops p more) (cs : List Char) :
    (cs ++ more).takeWhile p = cs.takeWhile p := by
  rw [List.takeWhile_append, takeWhile_of_stops h, List.append_nil]
  split
  · next hall => rw [(List.takeWhile_sublist p).eq_of_length hall]
  · rfl

theorem dropWhile_append_of_stops (h : Stops p more) (cs : List Char) :
    (cs ++ more).dropWhile p = cs.dropWhile p ++ more := by
  rw [List.dropWhile_append, dropWhile_of_stops h]
  split
  · next hall => rw [List.isEmpty_iff.1 hall, List.nil_append]
  · rfl

theorem length_dropWhile_lt {cs : List Char} (h : cs.takeWhile p ≠ []) :
    (cs.dropWhile p).length < cs.length := by
  have hsplit := congrArg List.length (List.takeWhile_append_dropWhile (p := p) (l := cs))
  have hpos := List.length_pos_iff.2 h
  rw [List.length_append] at hsplit
  omega

theorem exists_cons_of_takeWhile_ne_nil {cs : List Char} (h : cs.takeWhile p ≠ []) :
    ∃ c more, cs = c :: more ∧ p c = true := by
  cases cs with
  | nil => exact absurd rfl h
  | cons c more =>
    cases hc : p c with
    | true => exact ⟨c, more, rfl, hc⟩
    | false =>
      rw [List.takeWhile_cons, hc] at h
      exact absurd rfl h

theorem stops_dropWhile (p : Char → Bool) (cs : List Char) : Stops p (cs.dropWhile p) := by
  intro c hc
  have hhead := List.head?_dropWhile_not p cs
  rw [Option.mem_def.1 hc] at hhead
  simpa using hhead

end

theorem length_skipSpace_le (cs : List Char) : (skipSpace cs).length ≤ cs.length :=
  (List.dropWhile_sublist isSpace).length_le

theorem stops_skipSpace (cs : List Char) : Stops isSpace (skipSpace cs) :=
  stops_dropWhile isSpace cs

theorem skipSpace_of_stops (h : Stops isSpace more) : skipSpace more = more :=
  dropWhile_of_stops h

theorem skipSpace_append_of_cons {cs rest : List Char} {c : Char} (h : skipSpace cs = c :: rest)
    (more : List Char) : skipSpace (cs ++ more) = c :: rest ++ more := by
  have hskip : cs.dropWhile isSpace = c :: rest := h
  rw [skipSpace, List.dropWhile_append, hskip]
  rfl

theorem skipSpace_append_of_nil {cs : List Char} (h : skipSpace cs = []) (more : List Char) :
    skipSpace (cs ++ more) = skipSpace more := by
  have hskip : cs.dropWhile isSpace = [] := h
  rw [skipSpace, List.dropWhile_append, hskip]
  rfl

/-! ## Keys -/

theorem simpleKey?_bare {cs : List Char} (h : cs.takeWhile isBare ≠ []) :
    simpleKey? cs = some (String.ofList (cs.takeWhile isBare), cs.dropWhile isBare) := by
  obtain ⟨c, more, rfl, hc⟩ := exists_cons_of_takeWhile_ne_nil h
  rw [simpleKey?, if_neg h]
  · rintro rest heq
    obtain ⟨rfl, -⟩ := List.cons.inj heq
    cases hc
  · rintro rest heq
    obtain ⟨rfl, -⟩ := List.cons.inj heq
    cases hc

theorem extendsAt_simpleKey? (hmore : Stops isBare more) (cs : List Char) :
    ExtendsAt simpleKey? more cs := by
  fun_cases simpleKey? cs with
  | case1 rest => exact (extendsAt_basic more rest).map String.ofList rfl rfl (by simp)
  | case2 rest => exact (extendsAt_literal more rest).map String.ofList rfl rfl (by simp)
  | case3 cs hbasic hliteral name hname =>
    exact .of_eq_none (by rw [simpleKey?, if_pos hname] <;> assumption)
  | case4 cs hbasic hliteral name hname =>
    have hwhole : (cs ++ more).takeWhile isBare = name := takeWhile_append_of_stops hmore cs
    refine .of_eq_some (simpleKey?_bare hname) ?_ (length_dropWhile_lt hname)
    rw [simpleKey?_bare (by rwa [hwhole]), hwhole, dropWhile_append_of_stops hmore]

/-- Whether a key can begin with a character. -/
def opensKey (c : Char) : Bool :=
  isBare c || c = '\x22' || c = '\x27'

theorem simpleKey?_head {cs rest : List Char} {name : String}
    (h : simpleKey? cs = some (name, rest)) : ∃ c more, cs = c :: more ∧ opensKey c = true := by
  fun_cases simpleKey? cs with
  | case1 rest => exact ⟨_, rest, rfl, rfl⟩
  | case2 rest => exact ⟨_, rest, rfl, rfl⟩
  | case3 cs hbasic hliteral name hname =>
    rw [simpleKey?, if_pos hname] at h
    · cases h
    · exact hbasic
    · exact hliteral
  | case4 cs hbasic hliteral name hname =>
    obtain ⟨c, more, hcs, hc⟩ := exists_cons_of_takeWhile_ne_nil hname
    exact ⟨c, more, hcs, by rw [opensKey, hc]; rfl⟩

theorem keyOf?_head {names : Nat} {cs rest : List Char} {path : KeyPath}
    (h : keyOf? names cs = some (path, rest)) : ∃ c more, cs = c :: more ∧ opensKey c = true := by
  cases names with
  | zero => cases h
  | succ names =>
    obtain ⟨⟨name, behind⟩, hname, -⟩ := Option.bind_eq_some_iff.1 h
    exact simpleKey?_head hname

section

variable {names : Nat} {cs behind deeper : List Char} {name : String}

theorem keyOf?_dotted (hname : simpleKey? cs = some (name, behind))
    (hdot : skipSpace behind = '.' :: deeper) :
    keyOf? (names + 1) cs = (keyOf? names (skipSpace deeper)).map fun (path, rest) =>
      (⟨name :: path.parents, path.last⟩, rest) := by
  rw [keyOf?, hname, Option.bind_some]
  simp only [hdot]

theorem keyOf?_last (hname : simpleKey? cs = some (name, behind))
    (hdot : ∀ deeper, skipSpace behind = '.' :: deeper → False) :
    keyOf? (names + 1) cs = some (⟨[], name⟩, skipSpace behind) := by
  rw [keyOf?, hname, Option.bind_some]
  simp only

end

/-- The induction is on the names of the key; blanks may stand around each dot. -/
theorem keyOf?_append (hbare : Stops isBare more)
    (hdot : ∀ deeper, skipSpace more = '.' :: deeper → False)
    {names : Nat} {cs rest : List Char} {path : KeyPath} (h : keyOf? names cs = some (path, rest)) :
    rest.length < cs.length ∧
      keyOf? names (cs ++ more) = some (path, skipSpace (rest ++ more)) := by
  induction names generalizing cs rest path with
  | zero => cases h
  | succ names ih =>
    obtain ⟨⟨name, behind⟩, hname, -⟩ := Option.bind_eq_some_iff.1 h
    obtain ⟨hlt, hname'⟩ := extendsAt_simpleKey? hbare cs hname
    have hskip := length_skipSpace_le behind
    cases hbehind : skipSpace behind with
    | nil =>
      have hlast : ∀ deeper, skipSpace behind = '.' :: deeper → False := by simp [hbehind]
      rw [keyOf?_last hname hlast, hbehind] at h
      obtain ⟨rfl, rfl⟩ := Prod.mk.inj (Option.some.inj h)
      have hmore := skipSpace_append_of_nil hbehind more
      rw [keyOf?_last hname' (by rwa [hmore]), hmore]
      exact ⟨Nat.lt_of_le_of_lt (Nat.zero_le _) hlt, rfl⟩
    | cons c deeper =>
      have hmore := skipSpace_append_of_cons hbehind more
      rw [hbehind, List.length_cons] at hskip
      by_cases hc : c = '.'
      · subst hc
        rw [keyOf?_dotted hname hbehind] at h
        obtain ⟨⟨path', rest'⟩, hkey, hpair⟩ := Option.map_eq_some_iff.1 h
        cases hpair
        obtain ⟨d, left, hleft, -⟩ := keyOf?_head hkey
        obtain ⟨hlt', hkey'⟩ := ih hkey
        have hdeeper := length_skipSpace_le deeper
        rw [keyOf?_dotted hname' hmore, List.append_eq, skipSpace_append_of_cons hleft more,
          ← hleft, hkey']
        exact ⟨by omega, rfl⟩
      · have hlast : ∀ deeper, skipSpace behind = '.' :: deeper → False := by simp [hbehind, hc]
        rw [keyOf?_last hname hlast, hbehind] at h
        obtain ⟨rfl, rfl⟩ := Prod.mk.inj (Option.some.inj h)
        have hhead : Stops isSpace (c :: deeper) := hbehind ▸ stops_skipSpace behind
        have hstops : Stops isSpace (c :: deeper ++ more) := hhead
        rw [keyOf?_last hname' (by simp [hmore, hc]), hmore, skipSpace_of_stops hstops]
        exact ⟨by rw [List.length_cons]; omega, rfl⟩

theorem stops_of_keyOf? {names : Nat} {cs rest : List Char} {path : KeyPath}
    (h : keyOf? names cs = some (path, rest)) : Stops isSpace rest := by
  induction names generalizing cs path with
  | zero => cases h
  | succ names ih =>
    obtain ⟨⟨name, behind⟩, hname, -⟩ := Option.bind_eq_some_iff.1 h
    by_cases hdot : ∃ deeper, skipSpace behind = '.' :: deeper
    · obtain ⟨deeper, hdeeper⟩ := hdot
      rw [keyOf?_dotted hname hdeeper] at h
      obtain ⟨⟨path', rest'⟩, hkey, hpair⟩ := Option.map_eq_some_iff.1 h
      cases hpair
      exact ih hkey
    · rw [keyOf?_last hname fun deeper heq => hdot ⟨deeper, heq⟩] at h
      cases h
      exact stops_skipSpace behind

/-- A key with a line break behind it, as it may stand between braces. -/
theorem key?_append {cs rest : List Char} {key : KeyPath} (h : key? cs = some (key, rest))
    (tail : List Char) :
    rest.length < cs.length ∧ key? (cs ++ '\n' :: tail) = some (key, rest ++ '\n' :: tail) := by
  have hbare : Stops isBare ('\n' :: tail) := by
    rintro c ⟨⟩
    rfl
  have hdot : ∀ deeper, skipSpace ('\n' :: tail) = '.' :: deeper → False := by
    rintro deeper ⟨⟩
  have hrest : skipSpace (rest ++ '\n' :: tail) = rest ++ '\n' :: tail := by
    apply skipSpace_of_stops
    cases rest with
    | nil =>
      rintro c ⟨⟩
      rfl
    | cons d rest =>
      have hstops : Stops isSpace (d :: rest) := stops_of_keyOf? h
      exact hstops
  have happend := keyOf?_append hbare hdot h
  rwa [hrest] at happend

end Toml
end ScriptScope

import ScriptScope.Proofs.Toml.Keys

/-!
# ScriptScope.Proofs.Toml.Values

A value is read from the characters that write it. What stands on later lines makes no difference,
and neither does the count that bounds the readers, as long as it is greater than the number of
characters read (`Steady`).

* `Lists`: arrays and inline tables are read alike, item by item between brackets.
* `Lists.steady`, `steady_pair?`, `steady_value?`: one step of each reader, from the readers that
  may count to one less.
* `value?_append`: the whole, by induction on the count.
-/

namespace ScriptScope
namespace Toml

variable {α : Type} {tail : List Char}

/-! ## Values without quotes and brackets -/

section

variable {cs : List Char}

/-- A date with a blank behind it. -/
theorem bareValue?_date (hdate : afterDate? (cs.takeWhile isScalar) = some []) {left : List Char}
    (hrest : cs.dropWhile isScalar = ' ' :: left) :
    bareValue? cs = if left.head?.any Char.isDigit then
        (scalar? (cs.takeWhile isScalar ++ ' ' :: left.takeWhile isScalar)).map fun v =>
          (v, left.dropWhile isScalar)
      else some (.moment, ' ' :: left) := by
  simp only [bareValue?, hdate, hrest]

theorem bareValue?_word (h : afterDate? (cs.takeWhile isScalar) = some [] →
      ∀ left, cs.dropWhile isScalar = ' ' :: left → False) :
    bareValue? cs = (scalar? (cs.takeWhile isScalar)).map fun v => (v, cs.dropWhile isScalar) := by
  unfold bareValue?
  simp only
  split
  · next left hdate hrest => exact absurd hrest (h hdate left)
  · rfl

end

theorem bareValue?_head {cs rest : List Char} {v : Value} (h : bareValue? cs = some (v, rest)) :
    cs.takeWhile isScalar ≠ [] := by
  intro hword
  rw [bareValue?_word, hword] at h
  · cases h
  · rw [hword]
    rintro ⟨⟩

theorem extendsAt_bareValue? (tail cs : List Char) : ExtendsAt bareValue? ('\n' :: tail) cs := by
  intro v rest h
  have hstops : Stops isScalar ('\n' :: tail) := by
    rintro c ⟨⟩
    rfl
  have hword := takeWhile_append_of_stops hstops cs
  have hleft := dropWhile_append_of_stops hstops cs
  have hlt := length_dropWhile_lt (bareValue?_head h)
  by_cases hdate : afterDate? (cs.takeWhile isScalar) = some [] ∧
      ∃ left, cs.dropWhile isScalar = ' ' :: left
  · obtain ⟨hdate, left, hrest⟩ := hdate
    rw [bareValue?_date hdate hrest] at h
    rw [hrest] at hleft hlt
    have hdigit : (left ++ '\n' :: tail).head?.any Char.isDigit = left.head?.any Char.isDigit := by
      cases left <;> rfl
    rw [bareValue?_date (hword ▸ hdate) hleft, hword]
    simp only [List.append_eq]
    rw [hdigit, takeWhile_append_of_stops hstops, dropWhile_append_of_stops hstops]
    split at h
    · next htime =>
      obtain ⟨v', hv, hpair⟩ := Option.map_eq_some_iff.1 h
      cases hpair
      have hle := (List.dropWhile_sublist isScalar (l := left)).length_le
      rw [List.length_cons] at hlt
      rw [if_pos htime, hv]
      exact ⟨by omega, rfl⟩
    · next htime =>
      cases h
      rw [if_neg htime]
      exact ⟨hlt, rfl⟩
  · have hplain : afterDate? (cs.takeWhile isScalar) = some [] →
        ∀ left, cs.dropWhile isScalar = ' ' :: left → False :=
      fun hd left hl => hdate ⟨hd, left, hl⟩
    have hplain' : afterDate? ((cs ++ '\n' :: tail).takeWhile isScalar) = some [] →
        ∀ left, (cs ++ '\n' :: tail).dropWhile isScalar = ' ' :: left → False := by
      rw [hword, hleft]
      intro hd left hl
      cases hrest : cs.dropWhile isScalar with
      | nil => simp [hrest] at hl
      | cons c more =>
        rw [hrest] at hl
        obtain ⟨rfl, -⟩ := List.cons.inj hl
        exact hplain hd more hrest
    rw [bareValue?_word hplain] at h
    obtain ⟨v', hv, hpair⟩ := Option.map_eq_some_iff.1 h
    cases hpair
    rw [bareValue?_word hplain', hword, hleft, hv]
    exact ⟨hlt, rfl⟩

/-! ## Blanks and line breaks inside brackets -/

section

variable {c : Char} (rest : List Char)

theorem skipLines?_comment (h : isPlain c = true) :
    skipLines? true (c :: rest) = skipLines? true rest := by
  have hbreak : c ≠ '\n' := by
    rintro rfl
    cases h
  have hreturn : c ≠ '\r' := by
    rintro rfl
    cases h
  rw [skipLines?, if_pos h]
  · exact hbreak
  · exact fun _ hc => absurd hc hreturn

theorem skipLines?_space (h : isSpace c = true) :
    skipLines? false (c :: rest) = skipLines? false rest := by
  have hblank : c = ' ' ∨ c = '\t' := by simpa [isSpace] using h
  rcases hblank with rfl | rfl <;> rfl

theorem skipLines?_stop (hbreak : c ≠ '\n') (hreturn : c ≠ '\r') (hcomment : c ≠ '#')
    (hspace : ¬isSpace c = true) : skipLines? false (c :: rest) = some (c :: rest) := by
  rw [skipLines?, if_neg hspace]
  · exact hbreak
  · exact fun _ hc => absurd hc hreturn
  · exact hcomment

end

/-- A carriage return is left alone unless a break comes behind it, so it must not be the last. -/
theorem skipLines?_append {inComment : Bool} {cs rest : List Char} {c : Char}
    (h : skipLines? inComment cs = some (c :: rest)) (hreturn : c ≠ '\r') (tail : List Char) :
    (c :: rest).length ≤ cs.length ∧
      skipLines? inComment (cs ++ tail) = some (c :: rest ++ tail) := by
  fun_induction skipLines? inComment cs with
  | case1 => cases h
  | case2 inComment left ih =>
    obtain ⟨hle, hleft⟩ := ih h
    have hmore : skipLines? inComment ('\n' :: left ++ tail) = skipLines? false (left ++ tail) := by
      cases inComment <;> rfl
    exact ⟨Nat.le_succ_of_le hle, hmore.trans hleft⟩
  | case3 inComment left ih =>
    obtain ⟨hle, hleft⟩ := ih h
    have hmore : skipLines? inComment ('\r' :: '\n' :: left ++ tail) =
        skipLines? false (left ++ tail) := by
      cases inComment <;> rfl
    exact ⟨Nat.le_succ_of_le (Nat.le_succ_of_le hle), hmore.trans hleft⟩
  | case4 d left hbreak hpair hplain ih =>
    obtain ⟨hle, hleft⟩ := ih h
    exact ⟨Nat.le_succ_of_le hle, (skipLines?_comment _ hplain).trans hleft⟩
  | case5 => cases h
  | case6 left ih =>
    obtain ⟨hle, hleft⟩ := ih h
    exact ⟨Nat.le_succ_of_le hle, hleft⟩
  | case7 d left hbreak hpair hcomment hspace ih =>
    obtain ⟨hle, hleft⟩ := ih h
    exact ⟨Nat.le_succ_of_le hle, (skipLines?_space _ hspace).trans hleft⟩
  | case8 d left hbreak hpair hcomment hspace =>
    obtain ⟨rfl, rfl⟩ := List.cons.inj (Option.some.inj h)
    exact ⟨Nat.le_refl _, skipLines?_stop _ hbreak hreturn hcomment hspace⟩

/-! ## Lists between brackets -/

/-- How a list between brackets is read: it is at its end, it has one more item and its end behind
that, or one more item and a comma. -/
inductive Lists (closing : Char) (item : List Char → Option (α × List Char))
    (items : List Char → Option (List α × List Char)) :
    List Char → List α → List Char → Prop where
  | done {cs rest : List Char} : skipLines? false cs = some (closing :: rest) →
      Lists closing item items cs [] rest
  | last {cs front behind rest : List Char} {a : α} : skipLines? false cs = some front →
      (∀ more, front = closing :: more → False) → item front = some (a, behind) →
      skipLines? false behind = some (closing :: rest) → Lists closing item items cs [a] rest
  | more {cs front behind next rest : List Char} {a : α} {as : List α} :
      skipLines? false cs = some front → (∀ more, front = closing :: more → False) →
      item front = some (a, behind) → skipLines? false behind = some (',' :: next) →
      items next = some (as, rest) → Lists closing item items cs (a :: as) rest

section

variable {fuel depth : Nat} {cs rest : List Char}

theorem items?_eq_some_iff {items : List Value} :
    items? (fuel + 1) depth cs = some (items, rest) ↔
      Lists ']' (value? fuel depth) (items? fuel depth) cs items rest := by
  constructor
  · intro h
    rw [items?] at h
    split at h
    · cases h
    · next left hfront =>
      cases h
      exact .done hfront
    · next front hopen hfront =>
      obtain ⟨⟨item, behind⟩, hitem, hbehind⟩ := Option.bind_eq_some_iff.1 h
      simp only at hbehind
      split at hbehind
      · next left hclose =>
        cases hbehind
        exact .last hfront hopen hitem hclose
      · next next hcomma =>
        obtain ⟨⟨more, left⟩, hmore, hpair⟩ := Option.map_eq_some_iff.1 hbehind
        cases hpair
        exact .more hfront hopen hitem hcomma hmore
      · cases hbehind
  · intro h
    cases h with
    | done hfront => simp only [items?, hfront]
    | last hfront hopen hitem hclose => simp only [items?, hfront, hitem, hclose, Option.bind_some]
    | more hfront hopen hitem hcomma hmore =>
      simp only [items?, hfront, hitem, hcomma, hmore, Option.bind_some, Option.map_some]

theorem pairs?_eq_some_iff {pairs : List (KeyPath × Value)} :
    pairs? (fuel + 1) depth cs = some (pairs, rest) ↔
      Lists '\x7d' (pair? fuel depth) (pairs? fuel depth) cs pairs rest := by
  constructor
  · intro h
    rw [pairs?] at h
    split at h
    · cases h
    · next left hfront =>
      cases h
      exact .done hfront
    · next front hopen hfront =>
      obtain ⟨⟨pair, behind⟩, hpair, hbehind⟩ := Option.bind_eq_some_iff.1 h
      simp only at hbehind
      split at hbehind
      · next left hclose =>
        cases hbehind
        exact .last hfront hopen hpair hclose
      · next next hcomma =>
        obtain ⟨⟨more, left⟩, hmore, hresult⟩ := Option.map_eq_some_iff.1 hbehind
        cases hresult
        exact .more hfront hopen hpair hcomma hmore
      · cases hbehind
  · intro h
    cases h with
    | done hfront => simp only [pairs?, hfront]
    | last hfront hopen hpair hclose => simp only [pairs?, hfront, hpair, hclose, Option.bind_some]
    | more hfront hopen hpair hcomma hmore =>
      simp only [pairs?, hfront, hpair, hcomma, hmore, Option.bind_some, Option.map_some]

end

/-! ## Values of any kind -/

/-- A text that begins with no blank and no line break. -/
def Starts (cs : List Char) : Prop :=
  ∃ c more, cs = c :: more ∧ isSpace c = false ∧ c ≠ '\r'

theorem starts_of_head {p : Char → Bool} (hspace : p ' ' = false) (htab : p '\t' = false)
    (hreturn : p '\r' = false) {cs : List Char} (h : ∃ c more, cs = c :: more ∧ p c = true) :
    Starts cs := by
  obtain ⟨c, more, rfl, hc⟩ := h
  have hne : ∀ d, p d = false → c ≠ d := by
    rintro d hd rfl
    rw [hd] at hc
    cases hc
  refine ⟨c, more, rfl, ?_, hne _ hreturn⟩
  simp [isSpace, hne _ hspace, hne _ htab]

theorem starts_of_keyOf? {names : Nat} {cs rest : List Char} {path : KeyPath}
    (h : keyOf? names cs = some (path, rest)) : Starts cs :=
  starts_of_head rfl rfl rfl (keyOf?_head h)

theorem starts_of_bareValue? {cs rest : List Char} {v : Value}
    (h : bareValue? cs = some (v, rest)) : Starts cs :=
  starts_of_head rfl rfl rfl (exists_cons_of_takeWhile_ne_nil (bareValue?_head h))

theorem starts_of_value? {fuel depth : Nat} {cs rest : List Char} {v : Value}
    (h : value? fuel depth cs = some (v, rest)) : Starts cs := by
  fun_cases value? fuel depth cs with
  | case1 =>
    rw [value?] at h
    cases h
  | case8 fuel depth cs hlist htable hbasic hliteral =>
    rw [value?] at h
    · exact starts_of_bareValue? h
    all_goals assumption
  | _ => exact ⟨_, _, rfl, rfl, by decide⟩

theorem starts_of_pair? {fuel depth : Nat} {cs rest : List Char} {pair : KeyPath × Value}
    (h : pair? fuel depth cs = some (pair, rest)) : Starts cs := by
  cases fuel with
  | zero =>
    rw [pair?] at h
    cases h
  | succ fuel =>
    rw [pair?] at h
    obtain ⟨⟨key, behind⟩, hkey, -⟩ := Option.bind_eq_some_iff.1 h
    exact starts_of_keyOf? hkey

/-- The reader takes something, and as much of a text with a line break behind it, whenever it may
count to more than the number of characters that it takes. -/
def Steady (tail : List Char) (read : Nat → List Char → Option (α × List Char)) (fuel : Nat) :
    Prop :=
  ∀ ⦃cs : List Char⦄ ⦃a : α⦄ ⦃rest : List Char⦄, read fuel cs = some (a, rest) →
    rest.length < cs.length ∧ ∀ enough, cs.length < enough + rest.length →
      read enough (cs ++ '\n' :: tail) = some (a, rest ++ '\n' :: tail)

theorem Lists.steady {closing : Char} {item : Nat → List Char → Option (α × List Char)}
    {items : Nat → List Char → Option (List α × List Char)} {fuel : Nat} {cs rest : List Char}
    {as : List α} (hclosing : closing ≠ '\r') (hitem : Steady tail item fuel)
    (hstarts : ∀ ⦃cs a rest⦄, item fuel cs = some (a, rest) → Starts cs)
    (hitems : Steady tail items fuel) (h : Lists closing (item fuel) (items fuel) cs as rest) :
    rest.length < cs.length ∧ ∀ enough, cs.length < enough + 1 + rest.length →
      Lists closing (item enough) (items enough) (cs ++ '\n' :: tail) as
        (rest ++ '\n' :: tail) := by
  cases h with
  | done hfront =>
    obtain ⟨hle, hfront'⟩ := skipLines?_append hfront hclosing ('\n' :: tail)
    exact ⟨hle, fun _ _ => .done hfront'⟩
  | @last front behind _ a hfront hopen ha hclose =>
    obtain ⟨c, more, rfl, -, hreturn⟩ := hstarts ha
    obtain ⟨hfrontLe, hfront'⟩ := skipLines?_append hfront hreturn ('\n' :: tail)
    obtain ⟨hcloseLe, hclose'⟩ := skipLines?_append hclose hclosing ('\n' :: tail)
    obtain ⟨hlt, ha'⟩ := hitem ha
    rw [List.length_cons] at hcloseLe
    refine ⟨by omega, fun enough henough => .last hfront' ?_ (ha' enough (by omega)) hclose'⟩
    rintro more' heq
    obtain ⟨rfl, -⟩ := List.cons.inj heq
    exact hopen more rfl
  | @more front behind next _ a as hfront hopen ha hcomma has =>
    obtain ⟨c, more, rfl, -, hreturn⟩ := hstarts ha
    obtain ⟨hfrontLe, hfront'⟩ := skipLines?_append hfront hreturn ('\n' :: tail)
    obtain ⟨hcommaLe, hcomma'⟩ := skipLines?_append hcomma (by decide) ('\n' :: tail)
    obtain ⟨hlt, ha'⟩ := hitem ha
    obtain ⟨hlt', has'⟩ := hitems has
    rw [List.length_cons] at hcommaLe
    refine ⟨by omega, fun enough henough =>
      .more hfront' ?_ (ha' enough (by omega)) hcomma' (has' enough (by omega))⟩
    rintro more' heq
    obtain ⟨rfl, -⟩ := List.cons.inj heq
    exact hopen more rfl

section

variable {fuel depth : Nat} {cs rest : List Char}

theorem steady_items? (hvalue : Steady tail (value? · depth) fuel)
    (hitems : Steady tail (items? · depth) fuel) : Steady tail (items? · depth) (fuel + 1) := by
  intro cs items rest h
  obtain ⟨hlt, hmore⟩ := Lists.steady (by decide) hvalue (fun _ _ _ hv => starts_of_value? hv)
    hitems (items?_eq_some_iff.1 h)
  refine ⟨hlt, fun enough henough => ?_⟩
  obtain ⟨less, rfl⟩ : ∃ less, enough = less + 1 := ⟨enough - 1, by omega⟩
  exact items?_eq_some_iff.2 (hmore less henough)

theorem steady_pairs? (hpair : Steady tail (pair? · depth) fuel)
    (hpairs : Steady tail (pairs? · depth) fuel) : Steady tail (pairs? · depth) (fuel + 1) := by
  intro cs pairs rest h
  obtain ⟨hlt, hmore⟩ := Lists.steady (by decide) hpair (fun _ _ _ hp => starts_of_pair? hp)
    hpairs (pairs?_eq_some_iff.1 h)
  refine ⟨hlt, fun enough henough => ?_⟩
  obtain ⟨less, rfl⟩ : ∃ less, enough = less + 1 := ⟨enough - 1, by omega⟩
  exact pairs?_eq_some_iff.2 (hmore less henough)

theorem pair?_eq_some_iff {key : KeyPath} {v : Value} :
    pair? (fuel + 1) depth cs = some ((key, v), rest) ↔
      ∃ behind next front, key? cs = some (key, behind) ∧
        skipLines? false behind = some ('=' :: next) ∧ skipLines? false next = some front ∧
        value? fuel depth front = some (v, rest) := by
  rw [pair?]
  constructor
  · intro h
    obtain ⟨⟨key', behind⟩, hkey, hnext⟩ := Option.bind_eq_some_iff.1 h
    simp only at hnext
    split at hnext
    · next next hequals =>
      obtain ⟨front, hfront, hvalue⟩ := Option.bind_eq_some_iff.1 hnext
      obtain ⟨⟨v', rest'⟩, hv, hpair⟩ := Option.map_eq_some_iff.1 hvalue
      cases hpair
      exact ⟨behind, next, front, hkey, hequals, hfront, hv⟩
    · cases hnext
  · rintro ⟨behind, next, front, hkey, hequals, hfront, hv⟩
    simp only [hkey, hequals, hfront, hv, Option.bind_some, Option.map_some]

theorem steady_pair? (hvalue : Steady tail (value? · depth) fuel) :
    Steady tail (pair? · depth) (fuel + 1) := by
  rintro cs ⟨key, v⟩ rest h
  obtain ⟨behind, next, front, hkey, hequals, hfront, hv⟩ := pair?_eq_some_iff.1 h
  obtain ⟨c, more, rfl, -, hreturn⟩ := starts_of_value? hv
  obtain ⟨hkeyLt, hkey'⟩ := key?_append hkey tail
  obtain ⟨hequalsLe, hequals'⟩ := skipLines?_append hequals (by decide) ('\n' :: tail)
  obtain ⟨hfrontLe, hfront'⟩ := skipLines?_append hfront hreturn ('\n' :: tail)
  obtain ⟨hlt, hv'⟩ := hvalue hv
  rw [List.length_cons] at hequalsLe
  refine ⟨by omega, fun enough henough => ?_⟩
  obtain ⟨less, rfl⟩ : ∃ less, enough = less + 1 := ⟨enough - 1, by omega⟩
  exact pair?_eq_some_iff.2 ⟨_, _, _, hkey', hequals', hfront', hv' less (by omega)⟩

/-- A bracket and what `read` makes of the text behind it. -/
theorem steady_bracket {β : Type} {read : Nat → List Char → Option (β × List Char)}
    {bracket : Char} {left : List Char} {f : β → Value}
    (hbracket : ∀ fuel left, value? (fuel + 1) depth (bracket :: left) =
      (read fuel left).map fun (b, rest) => (f b, rest))
    (hread : Steady tail read fuel) {v : Value}
    (h : value? (fuel + 1) depth (bracket :: left) = some (v, rest)) :
    rest.length < (bracket :: left).length ∧
      ∀ enough, (bracket :: left).length < enough + rest.length →
        value? enough depth (bracket :: left ++ '\n' :: tail) = some (v, rest ++ '\n' :: tail) := by
  rw [hbracket] at h
  obtain ⟨⟨b, rest'⟩, hb, hpair⟩ := Option.map_eq_some_iff.1 h
  cases hpair
  obtain ⟨hlt, hmore⟩ := hread hb
  rw [List.length_cons]
  refine ⟨by omega, fun enough henough => ?_⟩
  obtain ⟨less, rfl⟩ : ∃ less, enough = less + 1 := ⟨enough - 1, by omega⟩
  rw [List.cons_append, hbracket, hmore less (by omega)]
  rfl

/-- A value that is read without counting. -/
theorem steady_plain {read : List Char → Option (Value × List Char)}
    (hread : ExtendsAt read ('\n' :: tail) cs)
    (hcs : ∀ fuel, value? (fuel + 1) depth cs = read cs)
    (hmore : ∀ fuel, value? (fuel + 1) depth (cs ++ '\n' :: tail) = read (cs ++ '\n' :: tail))
    {v : Value} (h : value? (fuel + 1) depth cs = some (v, rest)) :
    rest.length < cs.length ∧ ∀ enough, cs.length < enough + rest.length →
      value? enough depth (cs ++ '\n' :: tail) = some (v, rest ++ '\n' :: tail) := by
  rw [hcs] at h
  obtain ⟨hlt, hmore'⟩ := hread h
  refine ⟨hlt, fun enough henough => ?_⟩
  obtain ⟨less, rfl⟩ : ∃ less, enough = less + 1 := ⟨enough - 1, by omega⟩
  rw [hmore, hmore']

theorem extendsAt_quoted (tail cs : List Char) : ExtendsAt
    (fun cs => (string? cs).map fun (text, rest) => (Value.text (String.ofList text), rest))
    ('\n' :: tail) cs :=
  (extendsAt_string? tail cs).map (fun text => Value.text (String.ofList text)) rfl rfl
    (Nat.le_refl _)

theorem steady_value? (hitems : ∀ depth, Steady tail (items? · depth) fuel)
    (hpairs : ∀ depth, Steady tail (pairs? · depth) fuel) :
    Steady tail (value? · depth) (fuel + 1) := by
  intro cs v rest h
  obtain ⟨c, left, rfl, -⟩ := starts_of_value? h
  by_cases hlist : c = '['
  · subst hlist
    by_cases hdepth : depth = 0
    · simp [value?, hdepth] at h
    · exact steady_bracket (fun _ _ => by rw [value?, if_neg hdepth]) (hitems (depth - 1)) h
  by_cases htable : c = '\x7b'
  · subst htable
    by_cases hdepth : depth = 0
    · simp [value?, hdepth] at h
    · exact steady_bracket (fun _ _ => by rw [value?, if_neg hdepth]) (hpairs (depth - 1)) h
  by_cases hbasic : c = '\x22'
  · subst hbasic
    exact steady_plain (extendsAt_quoted tail _) (fun _ => by rw [value?])
      (fun _ => by rw [List.cons_append, value?]) h
  by_cases hliteral : c = '\x27'
  · subst hliteral
    exact steady_plain (extendsAt_quoted tail _) (fun _ => by rw [value?])
      (fun _ => by rw [List.cons_append, value?]) h
  · have hbare : ∀ fuel left, value? (fuel + 1) depth (c :: left) = bareValue? (c :: left) := by
      intro fuel left
      rw [value?]
      all_goals
        intro more heq
        simp_all
    exact steady_plain (extendsAt_bareValue? tail _) (fun _ => hbare _ _) (fun _ => hbare _ _) h

end

theorem steady (tail : List Char) (fuel : Nat) :
    ∀ depth, Steady tail (value? · depth) fuel ∧ Steady tail (items? · depth) fuel ∧
      Steady tail (pairs? · depth) fuel ∧ Steady tail (pair? · depth) fuel := by
  induction fuel with
  | zero =>
    intro depth
    refine ⟨?_, ?_, ?_, ?_⟩
    · intro cs a rest h
      simp [value?] at h
    · intro cs a rest h
      simp [items?] at h
    · intro cs a rest h
      simp [pairs?] at h
    · intro cs a rest h
      simp [pair?] at h
  | succ fuel ih =>
    intro depth
    obtain ⟨hvalue, hitems, hpairs, hpair⟩ := ih depth
    exact ⟨steady_value? (fun depth => (ih depth).2.1) fun depth => (ih depth).2.2.1,
      steady_items? hvalue hitems, steady_pairs? hpair hpairs, steady_pair? hvalue⟩

theorem value?_append {fuel depth : Nat} {cs rest : List Char} {v : Value}
    (h : value? fuel depth cs = some (v, rest)) (tail : List Char) {enough : Nat}
    (henough : cs.length < enough + rest.length) :
    value? enough depth (cs ++ '\n' :: tail) = some (v, rest ++ '\n' :: tail) :=
  ((steady tail fuel depth).1 h).2 enough henough

end Toml
end ScriptScope

import ScriptScope.Toml.Text

/-!
# ScriptScope.Proofs.Toml.Strings

What a reader takes does not depend on what comes behind it. `ExtendsAt` says so of one text: what
is read of it is read of the longer text too, and the rest is longer by as much.

* `extendsAt_basic`, `extendsAt_literal`: a string of one line ends at its quote, so anything may
  come behind it.
* `extendsAt_string?`: behind the three quotes of a longer string no quote may come, which would
  count as one of them; a line break does no harm.
-/

namespace ScriptScope
namespace Toml

variable {α β : Type} {tail : List Char}

/-- What `read` takes of `cs` is something, and is the same with `tail` behind. -/
def ExtendsAt (read : List Char → Option (α × List Char)) (tail cs : List Char) : Prop :=
  ∀ ⦃a : α⦄ ⦃rest : List Char⦄, read cs = some (a, rest) →
    rest.length < cs.length ∧ read (cs ++ tail) = some (a, rest ++ tail)

theorem push_eq_some_iff {c : Char} {read : Option (List Char × List Char)}
    {text rest : List Char} :
    push c read = some (text, rest) ↔ ∃ more, read = some (more, rest) ∧ text = c :: more := by
  constructor
  · intro h
    obtain ⟨⟨more, rest'⟩, hread, hpair⟩ := Option.map_eq_some_iff.1 h
    cases hpair
    exact ⟨more, hread, rfl⟩
  · rintro ⟨more, rfl, rfl⟩
    rfl

namespace ExtendsAt

section

variable {read : List Char → Option (α × List Char)} {cs : List Char}

theorem of_eq_none (h : read cs = none) : ExtendsAt read tail cs := by
  intro a rest hread
  rw [h] at hread
  cases hread

/-- A reader that stops here and now. -/
theorem of_eq_some {a : α} {rest : List Char} (h : read cs = some (a, rest))
    (hmore : read (cs ++ tail) = some (a, rest ++ tail)) (hlength : rest.length < cs.length) :
    ExtendsAt read tail cs := by
  intro a' rest' hread
  rw [h] at hread
  cases hread
  exact ⟨hlength, hmore⟩

/-- A reader that passes on to another, with what it makes of the result. -/
theorem map {next : List Char → Option (β × List Char)} {left : List Char} (f : β → α)
    (hnext : ExtendsAt next tail left)
    (h : read cs = (next left).map fun (b, rest) => (f b, rest))
    (hmore : read (cs ++ tail) = (next (left ++ tail)).map fun (b, rest) => (f b, rest))
    (hlength : left.length ≤ cs.length) : ExtendsAt read tail cs := by
  intro a rest hread
  rw [h] at hread
  obtain ⟨⟨b, rest'⟩, hleft, hpair⟩ := Option.map_eq_some_iff.1 hread
  cases hpair
  obtain ⟨hlt, hleft'⟩ := hnext hleft
  rw [hmore, hleft']
  exact ⟨Nat.lt_of_lt_of_le hlt hlength, rfl⟩

end

section

variable {read next : List Char → Option (List Char × List Char)} {cs left : List Char}

theorem pass (hnext : ExtendsAt next tail left) (h : read cs = next left)
    (hmore : read (cs ++ tail) = next (left ++ tail)) (hlength : left.length ≤ cs.length) :
    ExtendsAt read tail cs := by
  intro text rest hread
  rw [h] at hread
  obtain ⟨hlt, hleft⟩ := hnext hread
  rw [hmore, hleft]
  exact ⟨Nat.lt_of_lt_of_le hlt hlength, rfl⟩

/-- A reader that takes a character and passes on to another. -/
theorem push {c : Char} (hnext : ExtendsAt next tail left) (h : read cs = push c (next left))
    (hmore : read (cs ++ tail) = Toml.push c (next (left ++ tail)))
    (hlength : left.length ≤ cs.length) : ExtendsAt read tail cs := by
  intro text rest hread
  rw [h] at hread
  obtain ⟨more, hleft, rfl⟩ := push_eq_some_iff.1 hread
  obtain ⟨hlt, hleft'⟩ := hnext hleft
  rw [hmore, hleft']
  exact ⟨Nat.lt_of_lt_of_le hlt hlength, rfl⟩

/-- As `push`, for a character that may not be one. -/
theorem pushOf {c? : Option Char} (hnext : ExtendsAt next tail left)
    (h : read cs = c?.bind fun c => Toml.push c (next left))
    (hmore : read (cs ++ tail) = c?.bind fun c => Toml.push c (next (left ++ tail)))
    (hlength : left.length ≤ cs.length) : ExtendsAt read tail cs := by
  cases c? with
  | none => exact of_eq_none h
  | some c => exact hnext.push h hmore hlength

end

end ExtendsAt

theorem shortEscape?_letter {c d : Char} (h : shortEscape? c = some d) :
    c ≠ 'x' ∧ c ≠ 'u' ∧ c ≠ 'U' ∧ c ≠ '\n' ∧ c ≠ '\r' ∧ c ≠ ' ' ∧ c ≠ '\t' := by
  refine ⟨?_, ?_, ?_, ?_, ?_, ?_, ?_⟩ <;> rintro rfl <;> cases h

theorem basic_escape {c d : Char} (h : shortEscape? c = some d) (rest : List Char) :
    basic ('\\' :: c :: rest) = push d (basic rest) := by
  obtain ⟨hx, hu, hU, -⟩ := shortEscape?_letter h
  rw [basic, h, Option.bind_some]
  · exact fun _ _ _ hc => absurd hc hx
  · exact fun _ _ _ _ _ hc => absurd hc hu
  · exact fun _ _ _ _ _ _ _ _ _ hc => absurd hc hU

theorem basic_plain {c : Char} (hquote : c ≠ '\x22') (hplain : isPlain c ∧ c ≠ '\\')
    (rest : List Char) : basic (c :: rest) = push c (basic rest) := by
  rw [basic, if_pos hplain]
  · exact hquote
  all_goals intros; exact absurd ‹c = '\\'› hplain.2

theorem extendsAt_basic (tail cs : List Char) : ExtendsAt basic tail cs := by
  fun_induction basic cs with
  | case1 => exact .of_eq_none rfl
  | case2 rest => exact .of_eq_some rfl rfl (by simp)
  | case3 a b rest ih => exact ih.pushOf rfl rfl (by simp; omega)
  | case4 a b c d rest ih => exact ih.pushOf rfl rfl (by simp; omega)
  | case5 a b c d e f g h rest ih => exact ih.pushOf rfl rfl (by simp; omega)
  | case6 c rest hx hu hU ih =>
    cases hescape : shortEscape? c with
    | none => exact .of_eq_none (by rw [basic, hescape] <;> first | rfl | assumption)
    | some d =>
      exact ih.push (basic_escape hescape rest) (basic_escape hescape (rest ++ tail))
        (by simp; omega)
  | case7 c rest hquote hx hu hU hescape hplain ih =>
    exact ih.push (basic_plain hquote hplain rest) (basic_plain hquote hplain (rest ++ tail))
      (by simp)
  | case8 c rest hquote hx hu hU hescape hplain =>
    exact .of_eq_none (by rw [basic, if_neg hplain] <;> assumption)

theorem extendsAt_literal (tail cs : List Char) : ExtendsAt literal tail cs := by
  fun_induction literal cs with
  | case1 => exact .of_eq_none rfl
  | case2 rest => exact .of_eq_some rfl rfl (by simp)
  | case3 c rest hquote hplain ih =>
    have hliteral : ∀ rest, literal (c :: rest) = push c (literal rest) := fun rest => by
      rw [literal, if_neg hquote, if_pos hplain]
    exact ih.push (hliteral rest) (hliteral (rest ++ tail)) (by simp)
  | case4 c rest hquote hplain =>
    exact .of_eq_none (by rw [literal, if_neg hquote, if_neg hplain])

/-! ## Strings of several lines -/

/-- A break behind a text does not bring about a front that the text does not have. -/
theorem append_break_ne {rest : List Char} (front : List Char) (hbreak : '\n' ∉ front)
    (h : ∀ more, rest = front ++ more → False) :
    ∀ more, rest ++ '\n' :: tail = front ++ more → False := by
  intro more heq
  rcases List.append_eq_append_iff.1 heq with ⟨left, hfront, hleft⟩ | ⟨left, hrest, -⟩
  · cases left with
    | nil => exact h [] (by rw [List.append_nil, hfront, List.append_nil])
    | cons c left =>
      obtain ⟨rfl, -⟩ := List.cons.inj hleft
      exact hbreak (by simp [hfront])
  · exact h left hrest

theorem multiLiteral_plain {c : Char} (hplain : c = '\n' ∨ isPlain c = true) {rest : List Char}
    (hquotes : c = '\x27' → ∀ more, rest = ['\x27', '\x27'] ++ more → False) :
    multiLiteral (c :: rest) = push c (multiLiteral rest) := by
  have hreturn : c ≠ '\r' := by
    rintro rfl
    revert hplain
    decide
  rw [multiLiteral, if_pos hplain]
  · exact fun more hc hrest => hquotes hc _ hrest
  · exact fun more hc hrest => hquotes hc _ hrest
  · exact fun more hc hrest => hquotes hc _ hrest
  · exact fun more hc => absurd hc hreturn

theorem extendsAt_multiLiteral (tail cs : List Char) :
    ExtendsAt multiLiteral ('\n' :: tail) cs := by
  fun_induction multiLiteral cs with
  | case1 => exact .of_eq_none rfl
  | case2 rest => exact .of_eq_some rfl rfl (by simp; omega)
  | case3 rest hone =>
    refine .of_eq_some (by rw [multiLiteral]; assumption) ?_ (by simp; omega)
    exact multiLiteral.eq_3 _ (append_break_ne ['\x27'] (by decide) hone)
  | case4 rest htwo hone =>
    refine .of_eq_some (by rw [multiLiteral] <;> assumption) ?_ (by simp; omega)
    exact multiLiteral.eq_4 _ (append_break_ne ['\x27', '\x27'] (by decide) htwo)
      (append_break_ne ['\x27'] (by decide) hone)
  | case5 rest ih => exact ih.push rfl rfl (by simp; omega)
  | case6 c rest hfive hfour hthree hreturn hplain ih =>
    have hquotes : c = '\x27' → ∀ more, rest = ['\x27', '\x27'] ++ more → False :=
      fun hc more => hthree more hc
    exact ih.push (multiLiteral_plain hplain hquotes)
      (multiLiteral_plain hplain fun hc => append_break_ne _ (by decide) (hquotes hc)) (by simp)
  | case7 c rest hfive hfour hthree hreturn hplain =>
    exact .of_eq_none (by rw [multiLiteral, if_neg hplain] <;> assumption)

section

variable {fold : Fold} {c : Char} {rest : List Char}

theorem multiBasic_blank (hfold : fold ≠ .escaped) (hblank : c = ' ' ∨ c = '\t') :
    multiBasic fold ('\\' :: c :: rest) = multiBasic .escaped rest := by
  rcases hblank with rfl | rfl <;> cases fold <;> simp_all [multiBasic]

theorem multiBasic_escape (hfold : fold ≠ .escaped) {d : Char} (h : shortEscape? c = some d) :
    multiBasic fold ('\\' :: c :: rest) = push d (multiBasic .text rest) := by
  obtain ⟨hx, hu, hU, hbreak, hreturn, hspace, htab⟩ := shortEscape?_letter h
  rw [multiBasic, if_neg (by simp [hspace, htab]), h, Option.bind_some]
  all_goals simp_all

theorem multiBasic_plain (hfold : fold ≠ .escaped)
    (hskip : fold = .skipping → c ≠ ' ' ∧ c ≠ '\t' ∧ c ≠ '\n')
    (hplain : c = '\n' ∨ (isPlain c = true ∧ c ≠ '\\'))
    (hquotes : c = '\x22' → ∀ more, rest = ['\x22', '\x22'] ++ more → False) :
    multiBasic fold (c :: rest) = push c (multiBasic .text rest) := by
  have hreturn : c ≠ '\r' := by
    rintro rfl
    revert hplain
    decide
  have hslash : c ≠ '\\' := by
    rintro rfl
    revert hplain
    decide
  rw [multiBasic, if_pos hplain]
  case _ => exact fun more hc hrest => hquotes hc _ hrest
  case _ => exact fun more hc hrest => hquotes hc _ hrest
  case _ => exact fun more hc hrest => hquotes hc _ hrest
  all_goals intros; simp_all

end

theorem extendsAt_multiBasic (fold : Fold) (tail cs : List Char) :
    ExtendsAt (multiBasic fold) ('\n' :: tail) cs := by
  fun_induction multiBasic fold cs with
  | case1 => exact .of_eq_none (by simp [multiBasic])
  -- behind a backslash, before the end of its line
  | case2 rest ih => exact ih.pass rfl rfl (by simp)
  | case3 rest ih => exact ih.pass rfl rfl (by simp; omega)
  | case4 c rest hbreak hreturn hblank ih =>
    have hescaped : ∀ rest, multiBasic .escaped (c :: rest) = multiBasic .escaped rest := by
      intro rest
      rcases hblank with rfl | rfl <;> rfl
    exact ih.pass (hescaped rest) (hescaped _) (by simp)
  | case5 c rest hbreak hreturn hblank =>
    exact .of_eq_none (by rw [multiBasic, if_neg hblank] <;> assumption)
  -- in blanks that do not count
  | case6 rest ih => exact ih.pass rfl rfl (by simp)
  | case7 rest ih => exact ih.pass rfl rfl (by simp)
  | case8 rest ih => exact ih.pass rfl rfl (by simp)
  | case9 rest ih => exact ih.pass rfl rfl (by simp; omega)
  -- the closing quotes
  | case10 fold rest hfold =>
    exact .of_eq_some (multiBasic.eq_9 fold rest hfold) (multiBasic.eq_9 fold _ hfold)
      (by simp; omega)
  | case11 fold rest hone hfold =>
    have hone' : ∀ more, rest ++ '\n' :: tail = ['\x22'] ++ more → False :=
      append_break_ne _ (by decide) hone
    exact .of_eq_some (multiBasic.eq_10 fold rest hone hfold) (multiBasic.eq_10 fold _ hone' hfold)
      (by simp; omega)
  | case12 fold rest htwo hone hfold =>
    have htwo' : ∀ more, rest ++ '\n' :: tail = ['\x22', '\x22'] ++ more → False :=
      append_break_ne _ (by decide) htwo
    have hone' : ∀ more, rest ++ '\n' :: tail = ['\x22'] ++ more → False :=
      append_break_ne _ (by decide) hone
    exact .of_eq_some (multiBasic.eq_11 fold rest htwo hone hfold)
      (multiBasic.eq_11 fold _ htwo' hone' hfold) (by simp; omega)
  -- the escapes
  | case13 fold a b rest hfold ih =>
    exact ih.pushOf (multiBasic.eq_12 fold a b rest hfold) (multiBasic.eq_12 fold a b _ hfold)
      (by simp; omega)
  | case14 fold a b c d rest hfold ih =>
    exact ih.pushOf (multiBasic.eq_13 fold a b c d rest hfold)
      (multiBasic.eq_13 fold a b c d _ hfold) (by simp; omega)
  | case15 fold a b c d e f g h rest hfold ih =>
    exact ih.pushOf (multiBasic.eq_14 fold a b c d e f g h rest hfold)
      (multiBasic.eq_14 fold a b c d e f g h _ hfold) (by simp; omega)
  | case16 fold rest hfold ih =>
    exact ih.pass (multiBasic.eq_15 fold rest hfold) (multiBasic.eq_15 fold _ hfold)
      (by simp; omega)
  | case17 fold rest hfold ih =>
    exact ih.pass (multiBasic.eq_16 fold rest hfold) (multiBasic.eq_16 fold _ hfold)
      (by simp; omega)
  | case18 fold c rest hx hu hU hbreak hreturn hblank hfold ih =>
    exact ih.pass (multiBasic_blank hfold hblank) (multiBasic_blank hfold hblank) (by simp; omega)
  | case19 fold c rest hx hu hU hbreak hreturn hblank hfold ih =>
    cases hescape : shortEscape? c with
    | none =>
      exact .of_eq_none (by rw [multiBasic, if_neg hblank, hescape] <;> first | rfl | assumption)
    | some d =>
      exact ih.push (multiBasic_escape hfold hescape) (multiBasic_escape hfold hescape)
        (by simp; omega)
  -- the text
  | case20 fold rest hfold hskip ih =>
    exact ih.push (multiBasic.eq_18 fold rest hfold hskip) (multiBasic.eq_18 fold _ hfold hskip)
      (by simp; omega)
  | case21 fold c rest hfive hfour hthree hx hu hU hjoin hjoin' hescape hreturn hplain hbreak
      hbreak' hfold hspace htab hskip hskip' ih =>
    have hplain' : ∀ rest, (c = '\x22' → ∀ more, rest = ['\x22', '\x22'] ++ more → False) →
        multiBasic fold (c :: rest) = push c (multiBasic .text rest) := fun rest =>
      multiBasic_plain hfold (fun hs => ⟨hspace hs, htab hs, hskip hs⟩) hplain
    have hquotes : c = '\x22' → ∀ more, rest = ['\x22', '\x22'] ++ more → False :=
      fun hc more => hthree more hc
    exact ih.push (hplain' rest hquotes)
      (hplain' _ fun hc => append_break_ne _ (by decide) (hquotes hc)) (by simp)
  | case22 fold c rest =>
    exact .of_eq_none (by rw [multiBasic, if_neg ‹_›] <;> assumption)

/-! ## Strings of any kind -/

theorem length_dropBreak_le (cs : List Char) : (dropBreak cs).length ≤ cs.length := by
  unfold dropBreak
  split <;> simp; omega

theorem dropBreak_cons {c : Char} {rest : List Char} (hbreak : c ≠ '\n')
    (hpair : c = '\r' → rest.head? ≠ some '\n') : dropBreak (c :: rest) = c :: rest := by
  rw [dropBreak]
  · rintro more heq
    exact hbreak (List.cons.inj heq).1
  · rintro more heq
    obtain ⟨hc, rfl⟩ := List.cons.inj heq
    exact hpair hc rfl

theorem dropBreak_append {cs : List Char} (hnil : cs ≠ []) (hreturn : cs ≠ ['\r'])
    (tail : List Char) : dropBreak (cs ++ tail) = dropBreak cs ++ tail := by
  obtain ⟨c, rest, rfl⟩ := List.exists_cons_of_ne_nil hnil
  by_cases hbreak : c = '\n'
  · rw [hbreak]
    rfl
  by_cases hpair : c = '\r' ∧ rest.head? = some '\n'
  · obtain ⟨rfl, hhead⟩ := hpair
    obtain ⟨more, rfl⟩ := List.head?_eq_some_iff.1 hhead
    rfl
  · have hwhole : c = '\r' → (rest ++ tail).head? ≠ some '\n' := by
      intro hc hhead
      cases rest with
      | nil => exact hreturn (by rw [hc])
      | cons d rest => exact hpair ⟨hc, hhead⟩
    rw [List.cons_append, dropBreak_cons hbreak hwhole,
      dropBreak_cons hbreak fun hc hhead => hpair ⟨hc, hhead⟩, List.cons_append]

theorem string?_basic {rest : List Char}
    (htwo : ∀ more, rest = ['\x22', '\x22'] ++ more → False) :
    string? ('\x22' :: rest) = basic rest := by
  rw [string?]
  exact htwo

theorem string?_literal {rest : List Char}
    (htwo : ∀ more, rest = ['\x27', '\x27'] ++ more → False) :
    string? ('\x27' :: rest) = literal rest := by
  rw [string?]
  exact htwo

theorem extendsAt_string? (tail cs : List Char) : ExtendsAt string? ('\n' :: tail) cs := by
  fun_cases string? cs with
  | case1 rest =>
    by_cases hrest : rest = [] ∨ rest = ['\r']
    · refine .of_eq_none ?_
      rcases hrest with rfl | rfl <;> rfl
    · obtain ⟨hnil, hreturn⟩ := not_or.1 hrest
      have hmore : string? ('\x22' :: '\x22' :: '\x22' :: rest ++ '\n' :: tail) =
          multiBasic .text (dropBreak rest ++ '\n' :: tail) := by
        rw [← dropBreak_append hnil hreturn]
        rfl
      exact (extendsAt_multiBasic .text tail _).pass rfl hmore
        (Nat.le_trans (length_dropBreak_le rest) (by simp; omega))
  | case2 rest =>
    by_cases hrest : rest = [] ∨ rest = ['\r']
    · refine .of_eq_none ?_
      rcases hrest with rfl | rfl <;> rfl
    · obtain ⟨hnil, hreturn⟩ := not_or.1 hrest
      have hmore : string? ('\x27' :: '\x27' :: '\x27' :: rest ++ '\n' :: tail) =
          multiLiteral (dropBreak rest ++ '\n' :: tail) := by
        rw [← dropBreak_append hnil hreturn]
        rfl
      exact (extendsAt_multiLiteral tail _).pass rfl hmore
        (Nat.le_trans (length_dropBreak_le rest) (by simp; omega))
  | case3 rest htwo =>
    exact (extendsAt_basic _ rest).pass (string?_basic htwo)
      (string?_basic (append_break_ne _ (by decide) htwo)) (by simp)
  | case4 rest htwo =>
    exact (extendsAt_literal _ rest).pass (string?_literal htwo)
      (string?_literal (append_break_ne _ (by decide) htwo)) (by simp)
  | case5 hmultiBasic hmultiLiteral hbasic hliteral =>
    exact .of_eq_none (by rw [string?] <;> assumption)

end Toml
end ScriptScope

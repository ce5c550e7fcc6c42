/-!
# ScriptScope.Text.Blank

Blank and control characters, trimming, and cutting a text at the first mark.

A text is a list of characters here, so that every reader is a recursion on its input.

* `trim_of_ends`: a text whose two ends are not blank is left alone.
* `trim_append_blank`, `trim_blank_append`: blanks around a text make no difference.
* `trim_eq_iff`: trimming takes away blanks only, and leaves none at the two ends.
* `splitFirst_eq_some_iff`: the cut is at the first mark, and nothing else is lost.
* `append_inj_of_head`: a part that holds no mark, with a mark or nothing behind it, is determined.
-/

namespace ScriptScope
namespace Text

/-- The characters of the Unicode property `White_Space`. -/
def isBlank (c : Char) : Bool :=
  let n := c.toNat
  (0x09 ≤ n && n ≤ 0x0D) || n == 0x20 || n == 0x85 || n == 0xA0 || n == 0x1680 ||
    (0x2000 ≤ n && n ≤ 0x200A) || n == 0x2028 || n == 0x2029 || n == 0x202F || n == 0x205F ||
    n == 0x3000

/-- The characters of the Unicode category `Cc`: two blocks of thirty-two and the delete mark. -/
def isControl (c : Char) : Bool :=
  c.toNat < 0x20 || (0x7F ≤ c.toNat && c.toNat < 0xA0)

theorem toNat_ofNat {n : Nat} (h : n.isValidChar) : (Char.ofNat n).toNat = n := by
  rw [Char.ofNat, dif_pos h]
  rfl

theorem isValidChar_byte (b : UInt8) : b.toNat.isValidChar :=
  .inl (Nat.lt_trans b.toNat_lt (by decide))

/-- The text without the blanks at its start. -/
def trimStart (cs : List Char) : List Char :=
  cs.dropWhile isBlank

/-- The text without the blanks at its end. -/
def trimEnd (cs : List Char) : List Char :=
  (cs.reverse.dropWhile isBlank).reverse

def trim (cs : List Char) : List Char :=
  trimEnd (trimStart cs)

/-- The part before the first `mark` and the part after it; nothing when there is no `mark`. -/
def splitFirst (mark : Char) : List Char → Option (List Char × List Char)
  | [] => none
  | c :: rest =>
    if c = mark then some ([], rest)
    else (splitFirst mark rest).map fun (before, after) => (c :: before, after)

theorem trimStart_of_all_blank {cs : List Char} (h : ∀ c ∈ cs, isBlank c = true) :
    trimStart cs = [] := by
  induction cs with
  | nil => rfl
  | cons c cs ih =>
    have hc := h c (by simp)
    simp only [trimStart, List.dropWhile_cons, hc] at *
    exact ih fun d hd => h d (by simp [hd])

theorem trimStart_append_of_all_blank {pad : List Char} (h : ∀ c ∈ pad, isBlank c = true)
    (cs : List Char) : trimStart (pad ++ cs) = trimStart cs := by
  induction pad with
  | nil => rfl
  | cons c pad ih =>
    have hc := h c (by simp)
    simp only [trimStart, List.cons_append, List.dropWhile_cons, hc] at *
    exact ih fun d hd => h d (by simp [hd])

theorem trimStart_of_head {c : Char} {cs : List Char} (h : isBlank c = false) :
    trimStart (c :: cs) = c :: cs := by
  simp [trimStart, h]

theorem trimEnd_append_of_all_blank {pad : List Char} (h : ∀ c ∈ pad, isBlank c = true)
    (cs : List Char) : trimEnd (cs ++ pad) = trimEnd cs := by
  have : trimStart (pad.reverse ++ cs.reverse) = trimStart cs.reverse :=
    trimStart_append_of_all_blank (by simpa using h) _
  simp only [trimStart] at this
  simp [trimEnd, this]

theorem trimEnd_of_last {c : Char} {cs : List Char} (h : isBlank c = false) :
    trimEnd (cs ++ [c]) = cs ++ [c] := by
  simp [trimEnd, h]

theorem trim_blank_append {pad : List Char} (h : ∀ c ∈ pad, isBlank c = true)
    (cs : List Char) : trim (pad ++ cs) = trim cs := by
  simp [trim, trimStart_append_of_all_blank h]

theorem trimStart_append_pad {pad : List Char} (h : ∀ c ∈ pad, isBlank c = true)
    (cs : List Char) :
    trimStart (cs ++ pad) = if trimStart cs = [] then [] else trimStart cs ++ pad := by
  induction cs with
  | nil => simpa [trimStart] using trimStart_of_all_blank h
  | cons c cs ih =>
    cases hc : isBlank c
    · simp [trimStart, hc]
    · have skip : ∀ ds, trimStart (c :: ds) = trimStart ds := fun ds => by simp [trimStart, hc]
      rw [List.cons_append, skip, skip, ih]

theorem trim_append_blank {pad : List Char} (h : ∀ c ∈ pad, isBlank c = true)
    (cs : List Char) : trim (cs ++ pad) = trim cs := by
  rw [trim, trimStart_append_pad h]
  split
  · next he => simp [trim, he]
  · rw [trimEnd_append_of_all_blank h, trim]

theorem trim_of_ends {cs : List Char} (first : ∀ c ∈ cs.head?, isBlank c = false)
    (last : ∀ c ∈ cs.getLast?, isBlank c = false) : trim cs = cs := by
  cases cs with
  | nil => rfl
  | cons c cs =>
    have hs : trimStart (c :: cs) = c :: cs := trimStart_of_head (first c (by simp))
    rw [trim, hs]
    have hne : c :: cs ≠ [] := by simp
    have hl := last ((c :: cs).getLast hne) (by simp [List.getLast?_eq_some_getLast hne])
    have ends : trimEnd ((c :: cs).dropLast ++ [(c :: cs).getLast hne]) = _ := trimEnd_of_last hl
    rwa [List.dropLast_concat_getLast hne] at ends

theorem trim_of_no_blank {cs : List Char} (h : ∀ c ∈ cs, isBlank c = false) : trim cs = cs :=
  trim_of_ends (fun c hc => h c (List.mem_of_head? hc)) fun c hc => h c (List.mem_of_getLast? hc)

/-- What is left of a text when the blanks at its two ends are taken away. -/
structure Trims (text inner : List Char) : Prop where
  padded : ∃ front back, text = front ++ inner ++ back ∧
    (∀ c ∈ front, isBlank c = true) ∧ ∀ c ∈ back, isBlank c = true
  first : ∀ c ∈ inner.head?, isBlank c = false
  last : ∀ c ∈ inner.getLast?, isBlank c = false

theorem trimStart_split (cs : List Char) :
    (∃ front, cs = front ++ trimStart cs ∧ ∀ c ∈ front, isBlank c = true) ∧
      ∀ c ∈ (trimStart cs).head?, isBlank c = false := by
  refine ⟨⟨cs.takeWhile isBlank, List.takeWhile_append_dropWhile.symm, ?_⟩, ?_⟩
  · intro c hc
    exact List.all_eq_true.1 List.all_takeWhile c hc
  · intro c hc
    have hhead := List.head?_dropWhile_not isBlank cs
    rw [← trimStart, hc] at hhead
    simpa using hhead

theorem trimEnd_split (cs : List Char) :
    (∃ back, cs = trimEnd cs ++ back ∧ ∀ c ∈ back, isBlank c = true) ∧
      ∀ c ∈ (trimEnd cs).getLast?, isBlank c = false := by
  obtain ⟨⟨pad, hpad, hblank⟩, hhead⟩ := trimStart_split cs.reverse
  refine ⟨⟨pad.reverse, ?_, ?_⟩, ?_⟩
  · have hback := congrArg List.reverse hpad
    rwa [List.reverse_reverse, List.reverse_append] at hback
  · intro c hc
    exact hblank c (List.mem_reverse.1 hc)
  · intro c hc
    rw [trimEnd, List.getLast?_reverse] at hc
    exact hhead c hc

theorem trims_trim (cs : List Char) : Trims cs (trim cs) := by
  obtain ⟨⟨front, hfront, hblank⟩, hfirst⟩ := trimStart_split cs
  obtain ⟨⟨back, hback, hblank'⟩, hlast⟩ := trimEnd_split (trimStart cs)
  refine ⟨⟨front, back, ?_, hblank, hblank'⟩, ?_, hlast⟩
  · rw [trim, List.append_assoc, ← hback, ← hfront]
  · intro c hc
    apply hfirst
    rw [trim] at hc
    rw [hback, List.head?_append, hc]
    rfl

theorem trim_eq_iff {text inner : List Char} : trim text = inner ↔ Trims text inner := by
  constructor
  · rintro rfl
    exact trims_trim text
  · rintro ⟨⟨front, back, rfl, hfront, hback⟩, hfirst, hlast⟩
    rw [trim_append_blank hback, trim_blank_append hfront, trim_of_ends hfirst hlast]

theorem takeWhile_append_of_head {mark : Char} {front rest : List Char}
    (hfront : ∀ c ∈ front, c ≠ mark) (hrest : ∀ c ∈ rest.head?, c = mark) :
    (front ++ rest).takeWhile (· ≠ mark) = front ∧ (front ++ rest).dropWhile (· ≠ mark) = rest := by
  have hall : ∀ c ∈ front, decide (c ≠ mark) = true := fun c hc => decide_eq_true (hfront c hc)
  rw [List.takeWhile_append_of_pos hall, List.dropWhile_append_of_pos hall]
  cases rest with
  | nil => simp
  | cons c rest =>
    obtain rfl := hrest c (by simp)
    simp

/-- Two texts that are one are cut alike at their first mark. -/
theorem append_inj_of_head {mark : Char} {front front' rest rest' : List Char}
    (hfront : ∀ c ∈ front, c ≠ mark) (hrest : ∀ c ∈ rest.head?, c = mark)
    (hfront' : ∀ c ∈ front', c ≠ mark) (hrest' : ∀ c ∈ rest'.head?, c = mark)
    (h : front ++ rest = front' ++ rest') : front = front' ∧ rest = rest' := by
  obtain ⟨htake, hdrop⟩ := takeWhile_append_of_head hfront hrest
  obtain ⟨htake', hdrop'⟩ := takeWhile_append_of_head hfront' hrest'
  rw [h] at htake hdrop
  exact ⟨htake.symm.trans htake', hdrop.symm.trans hdrop'⟩

theorem splitFirst_append {mark : Char} {before : List Char} (h : mark ∉ before)
    (after : List Char) : splitFirst mark (before ++ mark :: after) = some (before, after) := by
  induction before with
  | nil => simp [splitFirst]
  | cons c before ih =>
    have hc : c ≠ mark := fun e => h (by simp [e])
    simp [splitFirst, hc, ih fun hm => h (by simp [hm])]

theorem splitFirst_eq_some_iff {mark : Char} {cs before after : List Char} :
    splitFirst mark cs = some (before, after) ↔ cs = before ++ mark :: after ∧ mark ∉ before := by
  constructor
  · intro h
    induction cs generalizing before with
    | nil => simp [splitFirst] at h
    | cons c cs ih =>
      simp only [splitFirst] at h
      split at h
      · next hc => simp_all
      · next hc =>
        obtain ⟨⟨b, a⟩, hb, he⟩ := Option.map_eq_some_iff.1 h
        obtain ⟨rfl, rfl⟩ := Prod.mk.inj he
        obtain ⟨rfl, hm⟩ := ih hb
        exact ⟨rfl, by simpa [hm] using Ne.symm hc⟩
  · rintro ⟨rfl, h⟩
    exact splitFirst_append h after

theorem splitFirst_eq_none_iff {mark : Char} {cs : List Char} :
    splitFirst mark cs = none ↔ mark ∉ cs := by
  induction cs with
  | nil => simp [splitFirst]
  | cons c cs ih =>
    simp only [splitFirst]
    split
    · next hc => simp [hc]
    · next hc => simp [ih, Ne.symm hc]

end Text
end ScriptScope

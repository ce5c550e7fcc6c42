import ScriptScope.Json.Reader
import ScriptScope.Json.Writer

/-!
# ScriptScope.Proofs.Json.Documents

A value that is written as a document is read from it again.

The reader takes one character at a time, so each lemma here is about a reading in progress: what is
written in front of any other characters brings the reader to the state behind it. Only a number is
not complete at its own last character; what stands behind it has to end it.

* `value?_literal`, `value?_signed`: string literals with their escapes, and integers.
* `Plain`: a value without numbers that are kept as they are spelled.
* `Plain.taken`: a plain value is taken by the reader as one complete value.
* `parse_render`: so its document has it as its value.
-/

namespace ScriptScope

namespace Decimal

/-- A number that is not zero has no leading zero. -/
theorem digits_eq_cons {n : Nat} (h : 0 < n) : ∃ c cs, digits n = c :: cs ∧ c ≠ '0' := by
  induction n using Nat.strongRecOn with
  | ind n ih =>
    rw [digits, Nat.toDigits_eq_if (by decide)]
    split
    · next hlt =>
      have hdigit : ∀ n, n < 10 → 0 < n → n.digitChar ≠ '0' := by decide
      exact ⟨_, [], rfl, hdigit n hlt h⟩
    · next hge =>
      obtain ⟨c, cs, hcs, hc⟩ := ih (n / 10) (by omega) (by omega)
      rw [digits] at hcs
      rw [hcs]
      exact ⟨c, _, rfl, hc⟩

end Decimal

namespace Json

/-! ## A reading in progress -/

/-- The value of a document of which some characters are still to come. -/
def Reading.value? (r : Reading) (cs : List Char) : Option Json :=
  (r.run cs).bind finish

/-- As `Reading.value?`, between two tokens. -/
def Reader.value? (reader : Reader) (cs : List Char) : Option Json :=
  Reading.value? ⟨.between, reader⟩ cs

namespace Reading

variable {scan next : Scan} {c : Char} {reader : Reader} {cs rest : List Char}

theorem value?_cons (r : Reading) (c : Char) (cs : List Char) :
    r.value? (c :: cs) = (r.step c).bind (·.value? cs) := by
  rw [value?, run_cons, Option.bind_assoc]
  rfl

/-- A character that completes no token. -/
theorem value?_silent (h : scan.step c = some ([], next)) :
    value? ⟨scan, reader⟩ (c :: cs) = value? ⟨next, reader⟩ cs := by
  rw [value?_cons, step, h]
  rfl

/-- A character that completes a token. -/
theorem value?_token {token : Token} (h : scan.step c = some ([token], .between)) :
    value? ⟨scan, reader⟩ (c :: cs) = (reader.step token).bind (·.value? cs) := by
  rw [value?_cons, step, h]
  cases hstep : reader.step token with
  | none => simp [Reader.run, hstep]
  | some after => simp [Reader.run, hstep, Reader.value?]

/-- A number that is ended by the character behind it, or by the end of the document. -/
theorem value?_number {part : NumberPart} {literal : List Char} (hpart : part.isComplete = true)
    (hstop : ∀ c ∈ rest.head?, part.next? c = none) :
    value? ⟨.number part literal, reader⟩ rest =
      (reader.step (.scalar (scalarOfNumber part literal.reverse))).bind (·.value? rest) := by
  generalize htoken : Token.scalar (scalarOfNumber part literal.reverse) = token
  cases rest with
  | nil =>
    have hfinish : Scan.finish (.number part literal) = some [token] := by
      rw [Scan.finish, if_pos hpart, htoken]
    rw [value?, run_nil, Option.bind_some, finish, hfinish]
    cases hstep : reader.step token with
    | none => simp [Reader.run, hstep]
    | some after => simp [Reader.run, hstep, Reader.value?, value?, finish, Scan.finish]
  | cons c cs =>
    -- the character that ends the number is itself read as one between two tokens
    have hnext : part.next? c = none := hstop c rfl
    have hscan : Scan.step (.number part literal) c =
        (Scan.begin c).map fun found => (token :: found.1, found.2) := by
      simp only [Scan.step, hnext, hpart, if_true, htoken]
    rw [value?_cons, step, hscan]
    cases hstep : reader.step token with
    | none =>
      cases Scan.begin c <;> simp [Reader.run, hstep]
    | some after =>
      rw [Option.bind_some, Reader.value?, value?_cons, step]
      cases hbegin : Scan.begin c with
      | none => simp [Scan.step, hbegin]
      | some behind => simp [Scan.step, hbegin, Reader.run, hstep]

end Reading

/-! ## Numbers -/

/-- The characters behind a value that end it, if it is a number. -/
def Ends (rest : List Char) : Prop :=
  ∀ c ∈ rest.head?, c = ',' ∨ c = ']' ∨ c = '\x7d'

theorem Ends.next?_eq_none {rest : List Char} (h : Ends rest) (part : NumberPart) :
    ∀ c ∈ rest.head?, part.next? c = none := by
  intro c hc
  cases part <;> rcases h c hc with rfl | rfl | rfl <;> rfl

variable {reader : Reader} {rest : List Char}

theorem value?_whole {digits : List Char} (hdigits : ∀ c ∈ digits, c.isDigit = true)
    (literal : List Char) :
    Reading.value? ⟨.number .whole literal, reader⟩ (digits ++ rest) =
      Reading.value? ⟨.number .whole (digits.reverse ++ literal), reader⟩ rest := by
  induction digits generalizing literal with
  | nil => rfl
  | cons c digits ih =>
    obtain ⟨hc, hmore⟩ := List.forall_mem_cons.1 hdigits
    have hscan : Scan.step (.number .whole literal) c =
        some ([], .number .whole (c :: literal)) := by
      simp only [Scan.step, NumberPart.next?, hc, if_true]
    rw [List.cons_append, Reading.value?_silent hscan, ih hmore, List.reverse_cons,
      List.append_assoc]
    rfl

theorem value?_digits {n : Nat} (hn : 0 < n) (literal : List Char) {scan : Scan}
    (hfirst : ∀ c, c.isDigit = true → c ≠ '0' →
      scan.step c = some ([], .number .whole (c :: literal))) :
    Reading.value? ⟨scan, reader⟩ (Decimal.digits n ++ rest) =
      Reading.value? ⟨.number .whole ((Decimal.digits n).reverse ++ literal), reader⟩ rest := by
  obtain ⟨c, cs, hcs, hc⟩ := Decimal.digits_eq_cons hn
  have hall : ∀ d ∈ c :: cs, d.isDigit = true := by
    rw [← hcs]
    exact fun d => Decimal.isDigit_of_mem_digits
  obtain ⟨hdigit, hmore⟩ := List.forall_mem_cons.1 hall
  rw [hcs, List.cons_append, Reading.value?_silent (hfirst c hdigit hc), value?_whole hmore,
    List.reverse_cons, List.append_assoc]
  rfl

theorem begin_of_isDigit {c : Char} (h : c.isDigit = true) (hc : c ≠ '0') :
    Scan.begin c = some ([], .number .whole [c]) := by
  have hne : ∀ mark : Char, mark.isDigit = false → c ≠ mark := by
    rintro mark hmark rfl
    rw [h] at hmark
    cases hmark
  have hspace : isSpace c = false := by
    simp [isSpace, hne]
  simp [Scan.begin, hspace, hne, NumberPart.next?, h, hc]

theorem scalarOfNumber_whole {cs : List Char} (h : '-' ∉ cs) :
    scalarOfNumber .whole cs = .integer (Decimal.value cs) := by
  rw [scalarOfNumber]
  rintro digits rfl
  simp at h

theorem value?_signed (n : Int) (hrest : Ends rest) :
    reader.value? (Decimal.signed n ++ rest) =
      (reader.step (.scalar (.integer n))).bind (·.value? rest) := by
  have hwhole := hrest.next?_eq_none .whole
  rcases Int.lt_trichotomy n 0 with hn | rfl | hn
  · have hscan : ∀ c, c.isDigit = true → c ≠ '0' →
        Scan.step (.number .minus ['-']) c = some ([], .number .whole [c, '-']) := by
      intro c hc hne
      simp only [Scan.step, NumberPart.next?, if_neg hne, hc, if_true]
    have hminus : Scan.step .between '-' = some ([], .number .minus ['-']) := rfl
    rw [Decimal.signed, if_pos hn, List.cons_append, Reader.value?, Reading.value?_silent hminus,
      value?_digits (by omega) _ hscan, Reading.value?_number rfl hwhole, List.reverse_append,
      List.reverse_reverse]
    have hvalue : scalarOfNumber .whole ('-' :: Decimal.digits n.natAbs) = .integer n := by
      rw [scalarOfNumber, Decimal.value_digits]
      congr 1
      omega
    exact congrArg (fun value => (reader.step (.scalar value)).bind (·.value? rest)) hvalue
  · have hzero : Scan.step .between '0' = some ([], .number .zero ['0']) := rfl
    have hdigits : Decimal.signed 0 = ['0'] := by decide
    rw [hdigits, List.cons_append, Reader.value?, Reading.value?_silent hzero, List.nil_append,
      Reading.value?_number rfl (hrest.next?_eq_none .zero)]
    rfl
  · have hminus : '-' ∉ Decimal.digits n.natAbs := Decimal.not_mem_digits (by decide) _
    have hvalue : scalarOfNumber .whole (Decimal.digits n.natAbs) = .integer n := by
      rw [scalarOfNumber_whole hminus, Decimal.value_digits]
      congr 1
      omega
    rw [Decimal.signed, if_neg (by omega), Reader.value?,
      value?_digits (by omega) [] fun c => begin_of_isDigit, List.append_nil,
      Reading.value?_number rfl hwhole, List.reverse_reverse, hvalue]

/-! ## String literals -/

/-- The part of a string literal as which a written character is read. -/
def StringPart.ofChar (c : Char) : StringPart :=
  if c.toNat < 0x20 ∧ c ∉ ['\n', '\r', '\t', '\x08', '\x0c'] then .code c.toNat else .char c

theorem charsOfParts_ofChar (c : Char) (parts : List StringPart) :
    charsOfParts (.ofChar c :: parts) = (charsOfParts parts).map (c :: ·) := by
  unfold StringPart.ofChar
  split
  · next hc =>
    have hhigh : isHighHalf c.toNat = false := by
      simp [isHighHalf]
      omega
    have hlow : isLowHalf c.toNat = false := by
      simp [isLowHalf]
      omega
    have hcode : charsOfParts (.code c.toNat :: parts) =
        (charsOfParts parts).map (Char.ofNat c.toNat :: ·) := by
      rcases parts with _ | ⟨_ | _, _⟩ <;> simp [charsOfParts, hhigh, hlow]
    rw [hcode, Char.ofNat_toNat]
  · rfl

theorem charsOfParts_map_ofChar (cs : List Char) :
    charsOfParts (cs.map StringPart.ofChar) = some cs := by
  induction cs with
  | nil => rfl
  | cons c cs ih =>
    rw [List.map_cons, charsOfParts_ofChar, ih]
    rfl

theorem value?_numbered {n : Nat} (hn : n < 0x20) (parts : List StringPart) :
    Reading.value? ⟨.string .begun parts, reader⟩
        (['u', '0', '0'] ++ Hex.byte (UInt8.ofNat n) ++ rest) =
      Reading.value? ⟨.string .outside (.code n :: parts), reader⟩ rest := by
  have hbyte : (UInt8.ofNat n).toNat = n := by
    rw [UInt8.toNat_ofNat', Nat.mod_eq_of_lt (by omega)]
  have hhigh := Hex.digitValue?_digit (n / 16) (by omega)
  have hlow := Hex.digitValue?_digit (n % 16) (by omega)
  have hthird : Scan.step (.string (.numbered 2 0) parts) (Hex.digit (n / 16)) =
      some ([], .string (.numbered 1 (n / 16)) parts) := by
    simp [Scan.step, Scan.stepString, hhigh]
  have hlast : Scan.step (.string (.numbered 1 (n / 16)) parts) (Hex.digit (n % 16)) =
      some ([], .string .outside (.code n :: parts)) := by
    simp [Scan.step, Scan.stepString, hlow, Nat.div_add_mod]
  have hmark : Scan.step (.string .begun parts) 'u' = some ([], .string (.numbered 4 0) parts) :=
    rfl
  have hzero : Scan.step (.string (.numbered 4 0) parts) '0' =
      some ([], .string (.numbered 3 0) parts) := rfl
  have hzero' : Scan.step (.string (.numbered 3 0) parts) '0' =
      some ([], .string (.numbered 2 0) parts) := rfl
  simp only [Hex.byte, hbyte, List.cons_append, List.nil_append, Reading.value?_silent hmark,
    Reading.value?_silent hzero, Reading.value?_silent hzero', Reading.value?_silent hthird,
    Reading.value?_silent hlast]

theorem value?_escapeChar (c : Char) (parts : List StringPart) :
    Reading.value? ⟨.string .outside parts, reader⟩ (escapeChar c ++ rest) =
      Reading.value? ⟨.string .outside (.ofChar c :: parts), reader⟩ rest := by
  -- the characters with an escape of their own, then the other control characters, then all others
  by_cases hnamed : c ∈ ['\x22', '\\', '\n', '\r', '\t', '\x08', '\x0c']
  · simp only [List.mem_cons, List.not_mem_nil, or_false] at hnamed
    rcases hnamed with rfl | rfl | rfl | rfl | rfl | rfl | rfl <;> rfl
  simp only [List.mem_cons, List.not_mem_nil, or_false, not_or] at hnamed
  obtain ⟨hquote, hback, hn, hr, ht, hb, hf⟩ := hnamed
  by_cases hcontrol : c.toNat < 0x20
  · have hpart : StringPart.ofChar c = .code c.toNat := by
      simp [StringPart.ofChar, *]
    have hbegun : Scan.step (.string .outside parts) '\\' = some ([], .string .begun parts) := rfl
    have hchars : escapeChar c = '\\' :: (['u', '0', '0'] ++ Hex.byte (UInt8.ofNat c.toNat)) := by
      simp [escapeChar, *]
    rw [hchars, hpart, List.cons_append, Reading.value?_silent hbegun, value?_numbered hcontrol]
  · have hpart : StringPart.ofChar c = .char c := by
      simp [StringPart.ofChar, *]
    have hscan : Scan.step (.string .outside parts) c =
        some ([], .string .outside (.char c :: parts)) := by
      simp [Scan.step, Scan.stepString, *]
    have hchars : escapeChar c = [c] := by
      simp [escapeChar, *]
    rw [hchars, hpart, List.cons_append, List.nil_append, Reading.value?_silent hscan]

theorem value?_escaped (cs : List Char) (parts : List StringPart) :
    Reading.value? ⟨.string .outside parts, reader⟩ (cs.flatMap escapeChar ++ rest) =
      Reading.value? ⟨.string .outside ((cs.map StringPart.ofChar).reverse ++ parts), reader⟩
        rest := by
  induction cs generalizing parts with
  | nil => rfl
  | cons c cs ih =>
    rw [List.flatMap_cons, List.append_assoc, value?_escapeChar, ih, List.map_cons,
      List.reverse_cons, List.append_assoc]
    rfl

theorem value?_literal (s : String) :
    reader.value? (literal s ++ rest) =
      (reader.step (.scalar (.text (some s)))).bind (·.value? rest) := by
  have hopen : Scan.step .between '\x22' = some ([], .string .outside []) := rfl
  have hclose : Scan.step (.string .outside (s.toList.map StringPart.ofChar).reverse) '\x22' =
      some ([.scalar (.text (some s))], .between) := by
    simp [Scan.step, Scan.stepString, charsOfParts_map_ofChar]
  rw [literal, List.cons_append, List.cons_append, List.append_assoc, Reader.value?,
    Reading.value?_silent hopen, value?_escaped, List.append_nil, List.cons_append,
    List.nil_append, Reading.value?_token hclose]

theorem value?_textChars (value : Option String) :
    reader.value? (textChars value ++ rest) =
      (reader.step (.scalar (.text value))).bind (·.value? rest) := by
  cases value with
  | some s => exact value?_literal s
  | none =>
    have hquote : Scan.step (.string .outside [.code 0xD800]) '\x22' =
        some ([.scalar (.text none)], .between) := rfl
    exact Reading.value?_token hquote

/-! ## Values -/

/-- A value without numbers that are kept as they are spelled. -/
inductive Plain : Json → Prop where
  | scalar {value : Scalar} (h : ∀ literal, value ≠ .real literal) : Plain (.scalar value)
  | array {items : List Json} (h : ∀ item ∈ items, Plain item) : Plain (.array items)
  | object {members : List (Option String × Json)} (h : ∀ m ∈ members, Plain m.2) :
    Plain (.object members)

/-- What is written of a value is taken as this value, wherever one may come. -/
def Taken (j : Json) : Prop :=
  ∀ (levels : List Level) (expects : Expectation) (rest : List Char),
    expects = .value ∨ expects = .firstItem → Ends rest →
    Reader.value? ⟨levels, expects⟩ (j.chars ++ rest) =
      (Reader.complete levels j).bind (·.value? rest)

theorem Reader.step_beginValue {levels : List Level} {expects : Expectation}
    (hexpects : expects = .value ∨ expects = .firstItem) {token : Token}
    (htoken : token ≠ .endArray) : step ⟨levels, expects⟩ token = beginValue levels token := by
  rcases hexpects with rfl | rfl
  · rfl
  · exact if_neg htoken

theorem Reader.value?_token {c : Char} {token : Token}
    (h : Scan.begin c = some ([token], .between)) :
    reader.value? (c :: rest) = (reader.step token).bind (·.value? rest) :=
  Reading.value?_token h

theorem value?_scalar {value : Scalar} (hvalue : ∀ literal, value ≠ .real literal)
    (hrest : Ends rest) :
    reader.value? (value.chars ++ rest) = (reader.step (.scalar value)).bind (·.value? rest) := by
  have hword : ∀ {last : Char} {value : Scalar},
      Scan.step (.word [last] value) last = some ([.scalar value], .between) := if_pos rfl
  match value with
  | .null => exact Reading.value?_token hword
  | .bool true => exact Reading.value?_token hword
  | .bool false => exact Reading.value?_token hword
  | .integer n => exact value?_signed n hrest
  | .real literal => exact absurd rfl (hvalue literal)
  | .text value => exact value?_textChars value

theorem ends_itemsChars (items : List Json) (rest : List Char) :
    Ends (itemsChars items ++ rest) := by
  cases items <;> simp [Ends, itemsChars]

theorem ends_membersChars (members : List (Option String × Json)) (rest : List Char) :
    Ends (membersChars members ++ rest) := by
  rcases members with _ | ⟨⟨_, _⟩, _⟩ <;> simp [Ends, membersChars]

/-- The items behind those that are already taken, up to the end of the array. -/
theorem value?_itemsChars {items : List Json} (hitems : ∀ item ∈ items, Taken item)
    (done : List Json) (levels : List Level) :
    Reader.value? ⟨.array done :: levels, .more⟩ (itemsChars items ++ rest) =
      (Reader.complete levels (.array (done.reverse ++ items))).bind (·.value? rest) := by
  induction items generalizing done with
  | nil =>
    rw [itemsChars, List.cons_append, List.nil_append, Reader.value?_token rfl, List.append_nil]
    rfl
  | cons item items ih =>
    obtain ⟨hitem, hmore⟩ := List.forall_mem_cons.1 hitems
    have hcomma : Reader.step ⟨.array done :: levels, .more⟩ .comma =
        some ⟨.array done :: levels, .value⟩ := rfl
    have hreader : Reader.complete (.array done :: levels) item =
        some ⟨.array (item :: done) :: levels, .more⟩ := rfl
    rw [itemsChars, List.cons_append, List.append_assoc, Reader.value?_token rfl, hcomma,
      Option.bind_some, hitem _ _ _ (.inl rfl) (ends_itemsChars items rest), hreader,
      Option.bind_some, ih hmore, List.reverse_cons, List.append_assoc]
    rfl

/-- A member behind those that are already taken, from its key on. -/
theorem value?_member {value : Json} (hvalue : Taken value) {expects : Expectation}
    (hexpects : expects = .key ∨ expects = .firstKey) (key : Option String)
    (done : List (Option String × Json)) (levels : List Level) (hrest : Ends rest) :
    Reader.value? ⟨.object done :: levels, expects⟩
        (textChars key ++ ':' :: (value.chars ++ rest)) =
      Reader.value? ⟨.object ((key, value) :: done) :: levels, .more⟩ rest := by
  have hkey : Reader.step ⟨.object done :: levels, expects⟩ (.scalar (.text key)) =
      some ⟨.member done key :: levels, .colon⟩ := by
    rcases hexpects with rfl | rfl <;> rfl
  have hcolon : Reader.step ⟨.member done key :: levels, .colon⟩ .colon =
      some ⟨.member done key :: levels, .value⟩ := rfl
  have hreader : Reader.complete (.member done key :: levels) value =
      some ⟨.object ((key, value) :: done) :: levels, .more⟩ := rfl
  rw [value?_textChars, hkey, Option.bind_some, Reader.value?_token rfl, hcolon, Option.bind_some,
    hvalue _ _ _ (.inl rfl) hrest, hreader, Option.bind_some]

/-- The members behind those that are already taken, up to the end of the object. -/
theorem value?_membersChars {members : List (Option String × Json)}
    (hmembers : ∀ m ∈ members, Taken m.2) (done : List (Option String × Json))
    (levels : List Level) :
    Reader.value? ⟨.object done :: levels, .more⟩ (membersChars members ++ rest) =
      (Reader.complete levels (.object (done.reverse ++ members))).bind (·.value? rest) := by
  induction members generalizing done with
  | nil =>
    rw [membersChars, List.cons_append, List.nil_append, Reader.value?_token rfl, List.append_nil]
    rfl
  | cons m members ih =>
    obtain ⟨key, value⟩ := m
    obtain ⟨hvalue, hmore⟩ := List.forall_mem_cons.1 hmembers
    have hcomma : Reader.step ⟨.object done :: levels, .more⟩ .comma =
        some ⟨.object done :: levels, .key⟩ := rfl
    rw [membersChars, List.cons_append, List.append_assoc, List.cons_append, List.append_assoc,
      Reader.value?_token rfl, hcomma, Option.bind_some,
      value?_member hvalue (.inl rfl) _ _ _ (ends_membersChars members rest), ih hmore,
      List.reverse_cons, List.append_assoc]
    rfl

theorem Plain.taken {j : Json} (h : j.Plain) : Taken j := by
  induction h with
  | @scalar value h =>
    intro levels expects rest hexpects hrest
    have hne : Token.scalar value ≠ .endArray := by simp
    rw [chars, value?_scalar h hrest, Reader.step_beginValue hexpects hne]
    rfl
  | @array items h ih =>
    intro levels expects rest hexpects hrest
    have hopen : Reader.step ⟨levels, expects⟩ .beginArray =
        some ⟨.array [] :: levels, .firstItem⟩ := Reader.step_beginValue hexpects (by simp)
    cases items with
    | nil =>
      rw [chars, List.cons_append, Reader.value?_token rfl, hopen, Option.bind_some,
        List.cons_append, List.nil_append, Reader.value?_token rfl]
      rfl
    | cons item items =>
      obtain ⟨hitem, hmore⟩ := List.forall_mem_cons.1 ih
      have hreader : Reader.complete (.array [] :: levels) item =
          some ⟨.array [item] :: levels, .more⟩ := rfl
      rw [chars, List.cons_append, List.append_assoc, Reader.value?_token rfl, hopen,
        Option.bind_some, hitem _ _ _ (.inr rfl) (ends_itemsChars items rest), hreader,
        Option.bind_some, value?_itemsChars hmore]
      rfl
  | @object members h ih =>
    intro levels expects rest hexpects hrest
    have hopen : Reader.step ⟨levels, expects⟩ .beginObject =
        some ⟨.object [] :: levels, .firstKey⟩ := Reader.step_beginValue hexpects (by simp)
    cases members with
    | nil =>
      rw [chars, List.cons_append, Reader.value?_token rfl, hopen, Option.bind_some,
        List.cons_append, List.nil_append, Reader.value?_token rfl]
      rfl
    | cons m members =>
      obtain ⟨key, value⟩ := m
      obtain ⟨hvalue, hmore⟩ := List.forall_mem_cons.1 ih
      rw [chars, List.cons_append, List.append_assoc, List.cons_append, List.append_assoc,
        Reader.value?_token rfl, hopen, Option.bind_some,
        value?_member hvalue (.inr rfl) _ _ _ (ends_membersChars members rest),
        value?_membersChars hmore]
      rfl

theorem parse_render {j : Json} (h : j.Plain) : parse j.render = some j := by
  have hchars := h.taken [] .value [] (.inl rfl) (by simp [Ends])
  rw [List.append_nil] at hchars
  rw [parse, render, String.toList_ofList]
  exact hchars

end Json
end ScriptScope

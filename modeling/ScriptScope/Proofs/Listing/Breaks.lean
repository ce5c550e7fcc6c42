import Mathlib.Algebra.Order.BigOperators.Group.List
import ScriptScope.Listing
import ScriptScope.Proofs.Listing.Columns
import ScriptScope.Proofs.Text.Lossy

/-!
# ScriptScope.Proofs.Listing.Breaks

The line breaks and other control characters in the text of a listing. A comment is free of them,
but for that of a system call in its own words: whatever control characters the bytes of such a call
spell, its line shows, and a line break among them cuts the line in two.

* `Annotation.clear_ofInstruction`: the comments that are free of control characters.
* `splitOn_ended_iff`: ended lines are cut at their ends only, if none of them holds a line break.
* `text?_ofScript_breaks`: the control characters of the comments and the lines of the text.
-/

namespace ScriptScope

theorem Opcode.role_eq_systemCall_iff (op : Opcode) : op.role = .systemCall ↔ op.value = 0x68 := by
  constructor
  · intro h
    grind [Opcode.role]
  · intro h
    cases op
    cases h
    rfl

namespace Instruction

/-- A system call in its own words: its operand is no hash of four bytes. -/
def IsNamedCall (i : Instruction) : Prop :=
  i.opcode.value = 0x68 ∧ i.operand.length ≠ 4

instance (i : Instruction) : Decidable i.IsNamedCall :=
  inferInstanceAs (Decidable (_ ∧ _))

/-- A system call by hash. -/
def IsHashedCall (i : Instruction) : Prop :=
  i.opcode.value = 0x68 ∧ i.operand.length = 4

end Instruction

/-! ## Comments -/

namespace Annotation

theorem clear_append {a b : String} (ha : Clear a) (hb : Clear b) : Clear (a ++ b) := by
  intro c hc
  rw [String.toList_append, List.mem_append] at hc
  exact hc.elim (ha c) (hb c)

theorem clear_ofList {cs : List Char} (h : ∀ c ∈ cs, Text.isGraphic c = true) :
    Clear (String.ofList cs) := by
  intro c hc
  rw [String.toList_ofList] at hc
  exact Text.isControl_eq_false_of_isGraphic (h c hc)

theorem clear_of_all {text : String} (h : (text.toList.all fun c => !Text.isControl c) = true) :
    Clear text := by
  intro c hc
  simpa using List.all_eq_true.1 h c hc

theorem clear_joined {fields : List String} (h : ∀ field ∈ fields, Clear field) :
    Clear (joined fields) := by
  rw [joined]
  induction fields with
  | nil => exact clear_of_all rfl
  | cons field rest ih =>
    obtain ⟨hfield, hrest⟩ := List.forall_mem_cons.1 h
    cases rest with
    | nil => exact hfield
    | cons field' rest =>
      rw [String.intercalate_cons_cons]
      exact clear_append (clear_append hfield (clear_of_all (by decide))) (ih hrest)

theorem clear_targetField (target : Int) : Clear (targetField target) := by
  have hsigned : ∀ c ∈ Decimal.signed target, Text.isGraphic c = true := by
    unfold Decimal.signed
    split
    · exact List.forall_mem_cons.2 ⟨rfl, Decimal.isGraphic_of_mem_digits _⟩
    · exact Decimal.isGraphic_of_mem_digits _
  exact clear_append (clear_of_all (by decide)) (clear_ofList hsigned)

theorem clear_toString (n : Nat) : Clear (toString n) := by
  intro c hc
  rw [Nat.toString_eq_repr, Nat.toList_repr] at hc
  exact Text.isControl_eq_false_of_isGraphic (Decimal.isGraphic_of_mem_digits n c hc)

theorem clear_countFields (operand : Bytes) : ∀ field ∈ countFields operand, Clear field := by
  intro field hfield
  simp only [countFields, List.mem_append, Option.mem_toList, Option.map_eq_some_iff] at hfield
  rcases hfield with ⟨b, -, rfl⟩ | ⟨b, -, rfl⟩
  · exact clear_append (clear_of_all (by decide)) (clear_toString _)
  · exact clear_append (clear_of_all (by decide)) (clear_toString _)

theorem clear_contractText {bs : Bytes} {text : String} (h : contractText? bs = some text) :
    Clear text := by
  obtain ⟨hash, -, rfl⟩ := Option.map_eq_some_iff.1 h
  refine clear_ofList ?_
  rw [ScriptHash.chars, Hex.marked]
  simpa using ⟨rfl, rfl, Hex.isGraphic_of_mem_encode _⟩

theorem clear_joined_append {fields : List String} (h : ∀ field ∈ fields, Clear field)
    {last? : Option String} (hlast : ∀ last ∈ last?, Clear last) :
    Clear (joined (fields ++ last?.toList)) := by
  refine clear_joined fun field hfield => ?_
  rcases List.mem_append.1 hfield with hfield | hfield
  · exact h field hfield
  · exact hlast field (Option.mem_toList.1 hfield)

theorem clear_getD {text? : Option String} (h : ∀ text ∈ text?, Clear text) :
    Clear (text?.getD "") := by
  cases text? with
  | none => exact clear_of_all rfl
  | some text => exact h text rfl

theorem clear_of_mem_map_targetField {target? : Option Int} :
    ∀ text ∈ target?.map targetField, Clear text := by
  intro text htext
  obtain ⟨target, -, rfl⟩ := Option.map_eq_some_iff.1 htext
  exact clear_targetField target

theorem ofInstruction_of_isNamedCall (names : SyscallNames) {i : Instruction}
    (h : i.IsNamedCall) : ofInstruction names i = Utf8.decodeLossy i.operand := by
  rw [ofInstruction, (Opcode.role_eq_systemCall_iff _).2 h.1]
  exact if_neg h.2

theorem ofInstruction_of_isHashedCall (names : SyscallNames) {i : Instruction}
    (h : i.IsHashedCall) : ofInstruction names i =
      (names (Bytes.littleWord i.operand)).getD
        ("hash: 0x" ++ String.ofList (Hex.word (Bytes.littleWord i.operand))) := by
  rw [ofInstruction, (Opcode.role_eq_systemCall_iff _).2 h.1]
  exact if_pos h.2

/-- All other comments are free of control characters, if the names are. -/
theorem clear_ofInstruction {names : SyscallNames}
    (hnames : ∀ hash, ∀ name ∈ names hash, Clear name) {i : Instruction} (h : ¬i.IsNamedCall) :
    Clear (ofInstruction names i) := by
  unfold ofInstruction
  cases hrole : i.opcode.role <;> simp only
  case zeroOrFalse => exact clear_of_all (by decide)
  case oneOrTrue => exact clear_of_all (by decide)
  case literal => exact clear_getD fun text htext => (literalText?_eq_some_iff.1 htext).clear
  case branch => exact clear_getD clear_of_mem_map_targetField
  case contract => exact clear_getD fun text htext => clear_contractText htext
  case countedBranch => exact clear_joined_append (clear_countFields _) clear_of_mem_map_targetField
  case countedContract =>
    exact clear_joined_append (clear_countFields _) fun text htext => clear_contractText htext
  case counts => exact clear_joined (clear_countFields _)
  case systemCall =>
    have hlength : i.operand.length = 4 :=
      of_not_not fun hne => h ⟨(Opcode.role_eq_systemCall_iff _).1 hrole, hne⟩
    simp only [callName, if_pos hlength]
    cases hname : names (Bytes.littleWord i.operand) with
    | some name => exact hnames _ name hname
    | none =>
      exact clear_append (clear_of_all (by decide)) (clear_ofList (Hex.isGraphic_of_mem_encode _))
  case nothing => exact clear_of_all rfl

/-- The control characters of a comment. -/
theorem mem_ofInstruction_iff {names : SyscallNames}
    (hnames : ∀ hash, ∀ name ∈ names hash, Clear name) (i : Instruction) {c : Char}
    (hc : Text.isControl c = true) :
    c ∈ (ofInstruction names i).toList ↔
      i.IsNamedCall ∧ Utf8.encode (String.singleton c) <:+: i.operand := by
  by_cases h : i.IsNamedCall
  · rw [ofInstruction_of_isNamedCall names h, Utf8.mem_decodeLossy_iff hc, and_iff_right h]
  · refine iff_of_false (fun hmem => ?_) (fun hcall => h hcall.1)
    rw [clear_ofInstruction hnames h c hmem] at hc
    cases hc

end Annotation

/-! ## Lines -/

namespace Instruction

/-- The line breaks that the line of an instruction shows. -/
def breaks (i : Instruction) : Nat :=
  if i.IsNamedCall then i.operand.count 0x0A else 0

theorem breaks_eq_zero_iff (i : Instruction) :
    i.breaks = 0 ↔ (i.IsNamedCall → 0x0A ∉ i.operand) := by
  unfold breaks
  split
  · next h => rw [List.count_eq_zero, forall_prop_of_true h]
  · next h => simp [h]

end Instruction

namespace Line

theorem count_break_eq_zero {cs : List Char} (h : ∀ c ∈ cs, Text.isGraphic c = true) :
    cs.count '\n' = 0 :=
  List.count_eq_zero.2 fun hmem => absurd (h _ hmem) (by decide)

theorem count_column (mark : List Char) (hmark : mark.count '\n' = 0) (text : String) :
    (column mark text).count '\n' = text.toList.count '\n' := by
  unfold column
  split
  · next h =>
    subst h
    rfl
  · rw [List.count_append, hmark, Nat.zero_add]

/-- The line breaks in a line are those in its comment. -/
theorem count_row (names : SyscallNames) (width : Nat) (i : Instruction) :
    ((ofInstruction names i).row width).toList.count '\n' =
      (Line.annotation (ofInstruction names i)).toList.count '\n' := by
  have haddress := count_break_eq_zero (Decimal.isGraphic_of_mem_padded width i.position)
  have hname := count_break_eq_zero i.opcode.isGraphic_of_mem_name
  have hoperand := count_break_eq_zero (isGraphic_of_mem_operandText i.operand)
  rw [toList_row, List.count_append, List.count_cons_of_ne (by decide), toList_body,
    List.count_append, List.count_append, count_column _ (by decide), count_column _ (by decide)]
  simp only [ofInstruction]
  omega

end Line

theorem Annotation.count_ofInstruction {names : SyscallNames}
    (hnames : ∀ hash, ∀ name ∈ names hash, Clear name) (i : Instruction) :
    (ofInstruction names i).toList.count '\n' = i.breaks := by
  unfold Instruction.breaks
  split
  · next h => rw [ofInstruction_of_isNamedCall names h, Utf8.count_decodeLossy]
  · next h =>
    refine List.count_eq_zero.2 fun hmem => ?_
    exact absurd (clear_ofInstruction hnames h _ hmem) (by decide)

namespace Listing

/-- Rows, each ended by a line break. -/
def ended (rows : List (List Char)) : List Char :=
  rows.flatMap (· ++ ['\n'])

theorem ended_eq_intercalate (rows : List (List Char)) :
    ended rows = ['\n'].intercalate (rows ++ [[]]) := by
  induction rows with
  | nil => rfl
  | cons row rows ih =>
    have hne : rows ++ [[]] ≠ [] := by simp
    rw [List.cons_append, List.intercalate_cons_of_ne_nil hne, ← ih]
    simp [ended]

theorem toList_join (rows : List String) :
    (String.join (rows.map (· ++ "\n"))).toList = ended (rows.map String.toList) := by
  rw [String.toList_join, ended, List.flatMap_map, List.flatMap_map]
  exact List.flatMap_congr fun row _ => String.toList_append

theorem count_ended (rows : List (List Char)) :
    (ended rows).count '\n' = rows.length + (rows.map (List.count '\n')).sum := by
  induction rows with
  | nil => rfl
  | cons row rows ih =>
    rw [ended] at *
    simp [ih]
    omega

theorem length_splitOn (mark : Char) (cs : List Char) :
    (cs.splitOn mark).length = cs.count mark + 1 := by
  induction cs with
  | nil => rfl
  | cons c cs ih =>
    rw [List.splitOn_cons_eq_if_modifyHead, List.count_cons]
    split
    · rw [List.length_cons, ih]
    · rw [List.length_modifyHead, ih, Nat.add_zero]

/-- The text is cut at its line breaks into the rows if and only if none of them holds one. -/
theorem splitOn_ended_iff {rows : List (List Char)} :
    (ended rows).splitOn '\n' = rows ++ [[]] ↔ ∀ row ∈ rows, row.count '\n' = 0 := by
  constructor
  · intro h
    have hlength := congrArg List.length h
    rw [length_splitOn, count_ended, List.length_append, List.length_singleton] at hlength
    intro row hrow
    have hle := List.le_sum_of_mem (List.mem_map_of_mem (f := List.count '\n') hrow)
    omega
  · intro h
    rw [ended_eq_intercalate]
    refine List.splitOn_intercalate '\n' ?_ (by simp)
    intro row hrow
    rcases List.mem_append.1 hrow with hrow | hrow
    · exact List.count_eq_zero.1 (h row hrow)
    · rw [List.mem_singleton.1 hrow]
      exact List.not_mem_nil

/-- The address column of a script can be written, whatever the script. -/
theorem columnWidth_le {length minimum : Nat} (hlength : length < Decimal.limit64)
    (hminimum : minimum ≤ Line.maxWidth) : columnWidth length minimum ≤ Line.maxWidth := by
  have hdigits : (Decimal.digits length).length ≤ 20 :=
    (Nat.length_toDigits_le_iff (by decide) (by decide)).2
      (Nat.lt_trans hlength (by decide))
  exact max_le (hdigits.trans (by decide)) hminimum

theorem text?_ofScript_breaks {script : Bytes} (hlength : script.length < Decimal.limit64)
    {minimum : Nat} (hminimum : minimum ≤ Line.maxWidth) :
    let listing := ofScript Interop.noNames minimum script
    let instructions := Instruction.decoded (Instruction.list script)
    listing.lines.toList = instructions.map (Line.ofInstruction Interop.noNames) ∧
    (∀ i ∈ instructions, ∀ c, Text.isControl c = true →
      (c ∈ (Line.annotation (Line.ofInstruction Interop.noNames i)).toList ↔
        i.IsNamedCall ∧ Utf8.encode (String.singleton c) <:+: i.operand)) ∧
    ∃ rows text, listing.lineTexts? = some rows ∧ listing.text? = some text ∧
      text.toList.count '\n' = instructions.length + (instructions.map Instruction.breaks).sum ∧
      (text.toList.splitOn '\n' = rows.map String.toList ++ [[]] ↔
        ∀ i ∈ instructions, i.IsNamedCall → 0x0A ∉ i.operand) := by
  intro listing instructions
  have hnames : ∀ hash, ∀ name ∈ Interop.noNames hash, Annotation.Clear name := by
    intro hash name hname
    cases hname
  let row := fun i => (Line.ofInstruction Interop.noNames i).row listing.addressWidth
  have hbreaks : ∀ i, (row i).toList.count '\n' = i.breaks := by
    intro i
    exact (Line.count_row _ _ i).trans <| Annotation.count_ofInstruction hnames i
  have hrows : listing.lineTexts? = some (instructions.map row) := by
    rw [lineTexts?_of_le (columnWidth_le hlength hminimum), toList_lines_ofScript, List.map_map]
    rfl
  have htext : listing.text? = some (String.join ((instructions.map row).map (· ++ "\n"))) := by
    rw [text?, hrows]
    rfl
  have hcounts : ((instructions.map row).map String.toList).map (List.count '\n') =
      instructions.map Instruction.breaks := by
    rw [List.map_map, List.map_map]
    refine List.map_congr_left fun i _ => ?_
    rw [Function.comp_apply, Function.comp_apply, hbreaks]
  refine ⟨toList_lines_ofScript .., fun i _ c hc => Annotation.mem_ofInstruction_iff hnames i hc,
    _, _, hrows, htext, ?_, ?_⟩
  · rw [toList_join, count_ended, hcounts, List.length_map, List.length_map]
  · rw [toList_join, splitOn_ended_iff]
    simp only [List.forall_mem_map, hbreaks, Instruction.breaks_eq_zero_iff]

/-- A call by the name "a\nb", and one that names a character in two bytes. -/
theorem text?_ofScript_breaks_hostile :
    let script : Bytes := [0x68, 0x03, 0x61, 0x0A, 0x62, 0x68, 0x02, 0xC2, 0x85]
    let listing := ofScript Interop.noNames 3 script
    script.length < Decimal.limit64 ∧ 3 ≤ Line.maxWidth ∧
      listing.lines.toList.map Line.annotation = ["a\nb", "\u0085"] ∧
      ∃ text, listing.text? = some text ∧ text.toList.count '\n' = 3 := by
  intro script listing
  have hlength : script.length < Decimal.limit64 := by decide
  have hminimum : 3 ≤ Line.maxWidth := by decide
  obtain ⟨hlines, -, rows, text, -, htext, hcount, -⟩ := text?_ofScript_breaks hlength hminimum
  have hinstructions : Instruction.decoded (Instruction.list script) =
      [⟨0, ⟨0x68⟩, [0x61, 0x0A, 0x62]⟩, ⟨5, ⟨0x68⟩, [0xC2, 0x85]⟩] := by
    decide +kernel
  rw [hinstructions] at hlines hcount
  refine ⟨hlength, hminimum, ?_, text, htext, hcount⟩
  rw [hlines]
  decide +kernel

/-- A line feed in the name of a system call makes two lines of one. -/
theorem not_text?_ofScript_one_line_each :
    ¬∀ (script : Bytes) (minimum : Nat), minimum ≤ Line.maxWidth →
      ∃ text, (ofScript Interop.noNames minimum script).text? = some text ∧
        text.toList.count '\n' = (Instruction.decoded (Instruction.list script)).length := by
  intro h
  obtain ⟨text, htext, hcount⟩ := h [0x68, 0x01, 0x0A] 3 (by decide)
  have hlisting : (ofScript Interop.noNames 3 [0x68, 0x01, 0x0A]).text? =
      some "000 SYSCALL 0A # \n\n" := by
    decide +kernel
  rw [Option.some.inj (htext.symm.trans hlisting)] at hcount
  exact absurd hcount (by decide +kernel)

end Listing
end ScriptScope

import Mathlib.Data.List.Nodup
import ScriptScope.Listing.Line
import ScriptScope.Proofs.Text.Hexadecimal

/-!
# ScriptScope.Proofs.Listing.Columns

The columns of a line, and what can be read off them. The address, the name of the opcode and the
bytes of the operand are written in visible ASCII characters, so the first blank ends the address
and the next one the name. The operand may be missing and the comment may hold anything, but a
comment begins with a mark that is no digit.

* `Opcode.name_inj`: no two opcodes have one name, whichever of three ways it is made in.
* `operandText_inj`, `operand_eq_of_columns`: the column of an operand gives its bytes, and a
  comment is never taken for one.
* `literalText?_eq_some_iff`: the comment on a literal quotes it, or is empty.
* `text?_ofInstruction`: so a line determines its instruction, whatever its comment says.
-/

namespace ScriptScope

/-- The visible ASCII characters; the blank is not one of them. -/
def Text.isGraphic (c : Char) : Bool :=
  0x21 ≤ c.toNat && c.toNat ≤ 0x7E

namespace Text

variable {c : Char}

theorem ne_blank_of_isGraphic (h : isGraphic c = true) : c ≠ ' ' := by
  rintro rfl
  cases h

theorem isControl_eq_false_of_isGraphic (h : isGraphic c = true) : isControl c = false := by
  simp only [isGraphic, Bool.and_eq_true, decide_eq_true_eq] at h
  simp only [isControl, Bool.or_eq_false_iff, Bool.and_eq_false_iff, decide_eq_false_iff_not]
  omega

end Text

namespace Decimal

theorem isGraphic_of_mem_digits (n : Nat) : ∀ c ∈ digits n, Text.isGraphic c = true :=
  (writes_digits n).forall_mem (by decide)

theorem isGraphic_of_mem_padded (width n : Nat) :
    ∀ c ∈ padded width n, Text.isGraphic c = true := by
  intro c hc
  rcases List.mem_append.1 hc with hzero | hdigit
  · rw [List.eq_of_mem_replicate hzero]
    decide
  · exact isGraphic_of_mem_digits n c hdigit

theorem value_padded (width n : Nat) : value (padded width n) = n := by
  have hzeros : ∀ k, Nat.ofDigitChars 10 (List.replicate k '0') 0 = 0 := by
    intro k
    induction k with
    | zero => rfl
    | succ k ih =>
      rw [List.replicate_succ, Nat.ofDigitChars_cons]
      exact ih
  rw [value, padded, Nat.ofDigitChars_append, hzeros]
  exact value_digits n

end Decimal

namespace Hex

theorem isGraphic_of_mem_encode (bs : Bytes) : ∀ c ∈ encode bs, Text.isGraphic c = true :=
  (spells_encode bs).forall_mem (by decide)

theorem byte_inj {b b' : UInt8} (h : byte b = byte b') : b = b' := by
  have hencode : encode [b] = encode [b'] := by
    simp only [encode, List.flatMap_cons, List.flatMap_nil, h]
  exact (List.cons.inj (encode_inj hencode)).1

end Hex

/-! ## Names of opcodes -/

namespace Opcode

/-- How the name of an opcode is made. -/
inductive Names : Opcode → List Char → Prop where
  | mnemonic {v : UInt8} {text : String} (h : (v, text) ∈ mnemonics) : Names ⟨v⟩ text.toList
  | pushBytes (v : UInt8) : Names ⟨v⟩ ("PUSHBYTES".toList ++ Decimal.digits v.toNat)
  | unknown (v : UInt8) : Names ⟨v⟩ ("UNKNOWN(0x".toList ++ Hex.byte v ++ [')'])

theorem names_name (op : Opcode) : Names op op.name.toList := by
  unfold name
  cases hmnemonic : op.mnemonic? with
  | some text =>
    obtain ⟨before, after, hsplit, -⟩ := List.lookup_eq_some_iff.1 hmnemonic
    exact .mnemonic (by simp [hsplit])
  | none =>
    simp only
    split
    · rw [String.toList_ofList]
      exact .pushBytes op.value
    · rw [String.toList_ofList]
      exact .unknown op.value

theorem nodup_mnemonics : (mnemonics.map Prod.snd).Nodup := by
  decide +kernel

/-- No mnemonic begins as the other names do, and all are visible. -/
theorem mnemonics_table : ∀ entry ∈ mnemonics,
    "PUSHBYTES".toList.isPrefixOf entry.2.toList = false ∧
      "UNKNOWN(0x".toList.isPrefixOf entry.2.toList = false ∧
      entry.2.toList.all Text.isGraphic = true := by
  decide +kernel

theorem ne_of_mem_mnemonics {v : UInt8} {text : String} (h : (v, text) ∈ mnemonics)
    (rest : List Char) :
    text.toList ≠ "PUSHBYTES".toList ++ rest ∧ text.toList ≠ "UNKNOWN(0x".toList ++ rest := by
  obtain ⟨hpush, hunknown, -⟩ := mnemonics_table _ h
  constructor
  · intro he
    rw [he, List.isPrefixOf_iff_prefix.2 (List.prefix_append _ _)] at hpush
    cases hpush
  · intro he
    rw [he, List.isPrefixOf_iff_prefix.2 (List.prefix_append _ _)] at hunknown
    cases hunknown

theorem Names.unique {op op' : Opcode} {cs cs' : List Char} (h : Names op cs)
    (h' : Names op' cs') (he : cs = cs') : op = op' := by
  cases h with
  | mnemonic hv =>
    cases h' with
    | mnemonic hv' =>
      have hentry := List.inj_on_of_nodup_map nodup_mnemonics hv hv' (String.toList_inj.1 he)
      exact congrArg Opcode.mk (congrArg Prod.fst hentry)
    | pushBytes v' => exact absurd he (ne_of_mem_mnemonics hv _).1
    | unknown v' =>
      rw [List.append_assoc] at he
      exact absurd he (ne_of_mem_mnemonics hv _).2
  | pushBytes v =>
    cases h' with
    | mnemonic hv' => exact absurd he.symm (ne_of_mem_mnemonics hv' _).1
    | pushBytes v' =>
      have hdigits := Decimal.digits_inj (List.append_cancel_left he)
      exact congrArg Opcode.mk (UInt8.toNat_inj.1 hdigits)
    | unknown v' => simp at he
  | unknown v =>
    cases h' with
    | mnemonic hv' =>
      rw [List.append_assoc] at he
      exact absurd he.symm (ne_of_mem_mnemonics hv' _).2
    | pushBytes v' => simp at he
    | unknown v' =>
      have hbyte := List.append_cancel_left (List.append_cancel_right he)
      exact congrArg Opcode.mk (Hex.byte_inj hbyte)

theorem name_inj {op op' : Opcode} (h : op.name = op'.name) : op = op' :=
  op.names_name.unique op'.names_name (congrArg String.toList h)

theorem Names.isGraphic {op : Opcode} {cs : List Char} (h : Names op cs) :
    ∀ c ∈ cs, Text.isGraphic c = true := by
  cases h with
  | mnemonic hv => exact List.all_eq_true.1 (mnemonics_table _ hv).2.2
  | pushBytes v =>
    have hword : "PUSHBYTES".toList.all Text.isGraphic = true := by decide
    intro c hc
    rcases List.mem_append.1 hc with hc | hc
    · exact List.all_eq_true.1 hword c hc
    · exact Decimal.isGraphic_of_mem_digits _ c hc
  | unknown v =>
    have hword : ("UNKNOWN(0x".toList ++ [')']).all Text.isGraphic = true := by decide
    intro c hc
    by_cases hbyte : c ∈ Hex.byte v
    · exact Hex.isGraphic_of_mem_encode [v] c (by simpa [Hex.encode] using hbyte)
    · refine List.all_eq_true.1 hword c ?_
      simp only [List.mem_append] at hc ⊢
      tauto

theorem isGraphic_of_mem_name (op : Opcode) : ∀ c ∈ op.name.toList, Text.isGraphic c = true :=
  op.names_name.isGraphic

end Opcode

/-! ## Operands -/

namespace Line

theorem filter_operandText (operand : Bytes) :
    (operandText operand).toList.filter (· ≠ '-') = operand.flatMap Hex.upperByte := by
  have hbyte : ∀ b, (Hex.upperByte b).filter (· ≠ '-') = Hex.upperByte b := by
    intro b
    have hspells : Hex.Spells (Hex.upperByte b) [b] := by
      simpa using Hex.spells_upperBytes [b]
    refine List.filter_eq_self.2 fun c hc => ?_
    exact hspells.forall_mem (p := (· ≠ '-')) (by decide) c hc
  rw [operandText, String.toList_ofList]
  induction operand with
  | nil => rfl
  | cons b rest ih =>
    cases rest with
    | nil => simpa using hbyte b
    | cons b' rest =>
      rw [List.map_cons, List.map_cons, List.intercalate_cons_cons, List.filter_append,
        List.filter_append, hbyte, ← List.map_cons, ih]
      rfl

theorem operandText_inj {operand operand' : Bytes}
    (h : operandText operand = operandText operand') : operand = operand' := by
  have hspells := Hex.spells_upperBytes operand
  rw [← filter_operandText, h, filter_operandText] at hspells
  exact hspells.unique (Hex.spells_upperBytes operand')

/-- What is so of every digit and of the dash is so of every character of an operand. -/
theorem forall_mem_operandText {p : Char → Bool} (operand : Bytes) (hdash : p '-' = true)
    (hrows : (Radix.hexadecimal.rows.all fun row => row.toList.all p) = true) :
    ∀ c ∈ (operandText operand).toList, p c = true := by
  intro c hc
  by_cases hc' : c = '-'
  · rw [hc', hdash]
  · have hfilter : c ∈ (operandText operand).toList.filter (· ≠ '-') := by
      simpa [hc'] using hc
    rw [filter_operandText] at hfilter
    exact (Hex.spells_upperBytes operand).forall_mem hrows c hfilter

theorem isGraphic_of_mem_operandText (operand : Bytes) :
    ∀ c ∈ (operandText operand).toList, Text.isGraphic c = true :=
  forall_mem_operandText operand (by decide) (by decide)

/-! ## Lines -/

/-- A column behind a mark; an empty text has no column. -/
def column (mark : List Char) (text : String) : List Char :=
  if text = "" then [] else mark ++ text.toList

theorem column_of_ne_empty {mark : List Char} {text : String} (h : text ≠ "") :
    column mark text = mark ++ text.toList := if_neg h

theorem toList_body (line : Line) :
    line.body.toList = line.mnemonic.toList ++
      (column [' '] line.operand ++ column [' ', '#', ' '] line.annotation) := by
  have hcolumn : ∀ mark text : String,
      (if text = "" then "" else mark ++ text).toList = column mark.toList text := by
    intro mark text
    unfold column
    split
    · rfl
    · rw [String.toList_append]
  rw [body, String.toList_append, String.toList_append, hcolumn, hcolumn, List.append_assoc]
  rfl

theorem toList_row (width : Nat) (line : Line) :
    (line.row width).toList = Decimal.padded width line.address ++ ' ' :: line.body.toList := by
  simp [row, String.toList_append]

theorem text?_eq_some_iff {line : Line} {width : Nat} {text : String} :
    line.text? width = some text ↔ width ≤ maxWidth ∧
      text.toList = Decimal.padded width line.address ++ ' ' :: line.body.toList := by
  by_cases hwidth : width ≤ maxWidth
  · rw [text?_of_le hwidth, Option.some_inj, ← String.toList_inj, toList_row, eq_comm,
      and_iff_right hwidth]
  · simp [text?, hwidth]

/-- Behind a name stand columns that begin with a blank, or nothing. -/
theorem head?_columns (operand annotation : String) :
    ∀ c ∈ (column [' '] operand ++ column [' ', '#', ' '] annotation).head?, c = ' ' := by
  unfold column
  split
  · split <;> simp
  · simp

/-- A comment is not taken for an operand: its mark is no digit. -/
theorem column_operandText_append_ne {operand : Bytes} (h : operandText operand ≠ "")
    (rest : List Char) (comment : String) :
    column [' '] (operandText operand) ++ rest ≠ column [' ', '#', ' '] comment := by
  have hmark : ∀ c ∈ (operandText operand).toList, decide (c ≠ '#') = true :=
    forall_mem_operandText operand (by decide) (by decide)
  rw [column_of_ne_empty h]
  unfold column
  cases hlist : (operandText operand).toList with
  | nil => exact absurd (String.toList_eq_nil_iff.1 hlist) h
  | cons d more =>
    have hd : d ≠ '#' := by simpa using hmark d (by simp [hlist])
    split
    · simp
    · simp [hd]

theorem operand_eq_of_columns {operand operand' : Bytes} {comment comment' : String}
    (h : column [' '] (operandText operand) ++ column [' ', '#', ' '] comment =
      column [' '] (operandText operand') ++ column [' ', '#', ' '] comment') :
    operand = operand' := by
  have hblank : ∀ operand : Bytes, ∀ c ∈ (operandText operand).toList, c ≠ ' ' :=
    fun operand c hc => Text.ne_blank_of_isGraphic (isGraphic_of_mem_operandText operand c hc)
  have hempty : ∀ text : String, text = "" → column [' '] text = [] := fun _ h => if_pos h
  have hcomment : ∀ c ∈ (column [' ', '#', ' '] comment).head?, c = ' ' := head?_columns "" comment
  have hcomment' : ∀ c ∈ (column [' ', '#', ' '] comment').head?, c = ' ' :=
    head?_columns "" comment'
  apply operandText_inj
  by_cases hnone : operandText operand = ""
  · by_cases hnone' : operandText operand' = ""
    · rw [hnone, hnone']
    · rw [hempty _ hnone, List.nil_append] at h
      exact absurd h.symm (column_operandText_append_ne hnone' _ _)
  · by_cases hnone' : operandText operand' = ""
    · rw [hempty _ hnone', List.nil_append] at h
      exact absurd h (column_operandText_append_ne hnone _ _)
    · rw [column_of_ne_empty hnone, column_of_ne_empty hnone'] at h
      have hcut := Text.append_inj_of_head (hblank operand) hcomment (hblank operand') hcomment'
        (List.cons.inj h).2
      exact String.toList_inj.1 hcut.1

/-- Two lines of one text are lines of one instruction. -/
theorem eq_of_text? {width : Nat} {names names' : SyscallNames} {i j : Instruction} {text : String}
    (hi : (ofInstruction names i).text? width = some text)
    (hj : (ofInstruction names' j).text? width = some text) : i = j := by
  have hline := (text?_eq_some_iff.1 hi).2
  rw [(text?_eq_some_iff.1 hj).2] at hline
  have haddress : ∀ n, ∀ c ∈ Decimal.padded width n, c ≠ ' ' :=
    fun n c hc => Text.ne_blank_of_isGraphic (Decimal.isGraphic_of_mem_padded width n c hc)
  have hname : ∀ op : Opcode, ∀ c ∈ op.name.toList, c ≠ ' ' :=
    fun op c hc => Text.ne_blank_of_isGraphic (op.isGraphic_of_mem_name c hc)
  -- the columns are cut off one after the other, each at the blank behind it
  obtain ⟨hposition, hbody⟩ := Text.append_inj_of_head (haddress _) (by simp) (haddress _) (by simp)
    hline
  have hbody := (List.cons.inj hbody).2
  rw [toList_body, toList_body] at hbody
  obtain ⟨hopcode, hcolumns⟩ := Text.append_inj_of_head (hname _) (head?_columns _ _) (hname _)
    (head?_columns _ _) hbody
  have hposition : j.position = i.position := by
    have hvalue := congrArg Decimal.value hposition
    rwa [Decimal.value_padded, Decimal.value_padded] at hvalue
  have hopcode : j.opcode = i.opcode := Opcode.name_inj (String.toList_inj.1 hopcode)
  have hoperand : j.operand = i.operand := operand_eq_of_columns hcolumns
  cases i
  cases j
  simp_all

end Line

/-! ## Literals -/

namespace Annotation

/-- A text without control characters. -/
def Clear (text : String) : Prop :=
  ∀ c ∈ text.toList, Text.isControl c = false

/-- A non-empty text without control characters whose bytes are those of the operand. -/
structure Quotes (operand : Bytes) (text : String) : Prop where
  ne_empty : text ≠ ""
  clear : Clear text
  bytes : Utf8.encode text = operand

theorem literalText?_eq_some_iff {operand : Bytes} {text : String} :
    literalText? operand = some text ↔ Quotes operand text := by
  have hshown : (text.toList ≠ [] && !text.toList.any Text.isControl) = true ↔
      text ≠ "" ∧ Clear text := by
    simp [Clear, String.toList_eq_nil_iff]
  rw [literalText?, Option.filter_eq_some_iff, hshown]
  constructor
  · rintro ⟨hdecode, hne, hclear⟩
    exact ⟨hne, hclear, Utf8.encode_of_decode? hdecode⟩
  · rintro ⟨hne, hclear, rfl⟩
    exact ⟨Utf8.decode?_encode text, hne, hclear⟩

theorem ofInstruction_of_isPushData (names : SyscallNames) {i : Instruction}
    (h : i.opcode.isPushData = true) :
    ofInstruction names i = (literalText? i.operand).getD "" := by
  have hrole : i.opcode.role = .literal := by
    have hzero : i.opcode.value ≠ 0x00 := by
      intro he
      simp [Opcode.isPushData, Opcode.isPushBytes, he] at h
    have hone : i.opcode.value ≠ 0x51 := by
      intro he
      simp [Opcode.isPushData, Opcode.isPushBytes, he] at h
    rw [Opcode.role, if_neg hzero, if_neg hone, if_pos h]
  rw [ofInstruction, hrole]

/-- The comment on a literal is the text that it is, and empty only if it is no such text. -/
theorem quotes_or_empty (names : SyscallNames) {i : Instruction}
    (h : i.opcode.isPushData = true) :
    (ofInstruction names i = "" ∨ Quotes i.operand (ofInstruction names i)) ∧
      ∀ text, Quotes i.operand text → ofInstruction names i = text := by
  rw [ofInstruction_of_isPushData names h]
  constructor
  · cases htext : literalText? i.operand with
    | none => exact .inl rfl
    | some text => exact .inr (literalText?_eq_some_iff.1 htext)
  · intro text hquotes
    rw [literalText?_eq_some_iff.2 hquotes]
    rfl

end Annotation

namespace Line

theorem text?_ofInstruction {width : Nat} (hwidth : width ≤ maxWidth) (names : SyscallNames)
    (i : Instruction) :
    let line := ofInstruction names i
    (∃ text, line.text? width = some text ∧
      ∀ names' j, (ofInstruction names' j).text? width = some text → j = i) ∧
    (i.opcode.isPushData = true →
      (line.annotation = "" ∨ Annotation.Quotes i.operand line.annotation) ∧
      ∀ text, Annotation.Quotes i.operand text → line.annotation = text) := by
  refine ⟨⟨_, text?_of_le hwidth _, ?_⟩, Annotation.quotes_or_empty names⟩
  intro names' j hj
  exact eq_of_text? hj (text?_of_le hwidth _)

/-- A system call whose name looks like an operand with a comment, and a push of a text. -/
theorem text?_ofInstruction_hostile :
    let hostile : SyscallNames := fun _ => some "61 # 62"
    let call : Instruction := ⟨4, ⟨0x68⟩, [1, 2, 3, 4]⟩
    3 ≤ maxWidth ∧
      (ofInstruction hostile call).text? 3 = some "004 SYSCALL 01-02-03-04 # 61 # 62" ∧
      (∀ names j, (ofInstruction names j).text? 3 = some "004 SYSCALL 01-02-03-04 # 61 # 62" →
        j = call) ∧
      Line.annotation (ofInstruction hostile ⟨0, ⟨0x03⟩, [0x61, 0xC3, 0xA9]⟩) = "aé" := by
  intro hostile call
  have hwidth : 3 ≤ maxWidth := by decide
  obtain ⟨⟨text, htext, hunique⟩, -⟩ := text?_ofInstruction hwidth hostile call
  obtain ⟨-, hliteral⟩ := text?_ofInstruction hwidth hostile ⟨0, ⟨0x03⟩, [0x61, 0xC3, 0xA9]⟩
  have hline : (ofInstruction hostile call).text? 3 =
      some "004 SYSCALL 01-02-03-04 # 61 # 62" := by decide +kernel
  obtain rfl := Option.some.inj (htext.symm.trans hline)
  refine ⟨hwidth, hline, hunique, (hliteral rfl).2 "aé" ⟨by decide, ?_, by decide +kernel⟩⟩
  simp [Text.isControl, Annotation.Clear]

end Line
end ScriptScope

import ScriptScope.Proofs.Listing.Columns
import ScriptScope.Proofs.Listing.Lookup
import ScriptScope.Proofs.Text.Digits

/-!
# ScriptScope.Proofs.Listing.AddressColumn

The column of addresses. It is wide enough for every address of the script, so each address fills it
with zeros and digits, and the order of the lines as texts is the order of the addresses.

* `Line.begins_row`, `Line.row_lt_row`: one line, and a line in front of another.
* `lineTexts?_ofScript_ascend`: the width of the column, how each line begins, and their order.
-/

namespace ScriptScope
namespace Decimal

theorem isDigit_of_mem_padded {width n : Nat} {c : Char} (h : c ∈ padded width n) :
    c.isDigit = true := by
  rcases List.mem_append.1 h with hzero | hdigit
  · rw [List.eq_of_mem_replicate hzero]
    rfl
  · exact isDigit_of_mem_digits hdigit

theorem writes_padded (width n : Nat) : Radix.decimal.Writes (padded width n) n := by
  have hread : readDigits (n + 1) (padded width n) = some n := by
    have hdigits : (padded width n).all Char.isDigit = true :=
      List.all_eq_true.2 fun c hc => isDigit_of_mem_padded hc
    have hne : padded width n ≠ [] := by simp [padded, digits_ne_nil]
    rw [readDigits, if_pos ⟨hne, hdigits, by rw [value_padded]; exact Nat.lt_succ_self n⟩,
      value_padded]
  exact (readDigits_eq_some_iff.1 hread).2.1

theorem length_padded_of_lt {width n : Nat} (hwidth : 0 < width) (h : n < 10 ^ width) :
    (padded width n).length = width := by
  have hle := (length_digits_le_iff hwidth).2 h
  rw [padded, List.length_append, List.length_replicate]
  omega

end Decimal

theorem Opcode.name_ne_empty (op : Opcode) : op.name.toList ≠ [] := by
  have htable : ∀ entry ∈ mnemonics, entry.2.toList ≠ [] := by decide +kernel
  have hnames := op.names_name
  generalize op.name.toList = cs at hnames
  cases hnames with
  | mnemonic hv => exact htable _ hv
  | pushBytes v => simp
  | unknown v => simp

namespace Line

/-- A text begins with an address in a column of `width` digits, and one blank behind it. -/
def Begins (width address : Nat) (text : String) : Prop :=
  ∃ column rest, text.toList = column ++ ' ' :: rest ∧ column.length = width ∧
    Radix.decimal.Writes column address ∧ ∀ c ∈ rest.head?, c ≠ ' '

theorem begins_row {width : Nat} {i : Instruction} (hwidth : 0 < width)
    (h : i.position < 10 ^ width) (names : SyscallNames) :
    Begins width i.position ((ofInstruction names i).row width) := by
  refine ⟨_, _, toList_row .., Decimal.length_padded_of_lt hwidth h, Decimal.writes_padded .., ?_⟩
  rw [toList_body]
  cases hname : i.opcode.name.toList with
  | nil => exact absurd hname i.opcode.name_ne_empty
  | cons c cs =>
    have hgraphic := i.opcode.isGraphic_of_mem_name c (by simp [hname])
    simpa [ofInstruction, hname] using Text.ne_blank_of_isGraphic hgraphic

theorem row_lt_row {width : Nat} {l l' : Line} (hwidth : 0 < width)
    (hlt : l.address < l'.address) (hfits : l'.address < 10 ^ width) :
    l.row width < l'.row width := by
  rw [String.lt_iff, toList_row, toList_row]
  apply Decimal.append_lt_append_of_value_lt
  · rw [Decimal.length_padded_of_lt hwidth (Nat.lt_trans hlt hfits),
      Decimal.length_padded_of_lt hwidth hfits]
  · exact fun c => Decimal.isDigit_of_mem_padded
  · exact fun c => Decimal.isDigit_of_mem_padded
  · rwa [Decimal.value_padded, Decimal.value_padded]

end Line

namespace Listing

open Instruction

theorem columnWidth_pos (length minimum : Nat) : 0 < columnWidth length minimum :=
  Nat.lt_of_lt_of_le (Decimal.length_digits_pos length) (Nat.le_max_left _ _)

theorem lt_pow_columnWidth (length minimum : Nat) : length < 10 ^ columnWidth length minimum :=
  (Decimal.length_digits_le_iff (columnWidth_pos length minimum)).1 (Nat.le_max_left _ _)

theorem columnWidth_mono {length longer : Nat} (h : length ≤ longer) (minimum : Nat) :
    columnWidth length minimum ≤ columnWidth longer minimum :=
  max_le_max (Decimal.length_digits_mono h) (Nat.le_refl _)

theorem position_lt_length {script : Bytes} {i : Instruction} (h : i ∈ decoded (list script)) :
    i.position < script.length := by
  have hreads : Reads 0 script (list script) := reads_listFrom 0 script
  have hnext := (hreads.next_le_of_mem_decoded h).1
  have hlt := i.position_lt_next
  omega

theorem pairwise_position_lt (script : Bytes) :
    (decoded (list script)).Pairwise fun i j => i.position < j.position := by
  have hreads : Reads 0 script (list script) := reads_listFrom 0 script
  exact hreads.pairwise_next_le.imp fun h => Nat.lt_of_lt_of_le (position_lt_next _) h

theorem lineTexts?_ofScript_ascend (names : SyscallNames) (minimum : Nat) (script : Bytes) :
    let listing := ofScript names minimum script
    let instructions := decoded (list script)
    (∃ digits, IsLeast {width | 0 < width ∧ script.length < 10 ^ width} digits ∧
      listing.addressWidth = max minimum digits) ∧
    (∀ longer : Bytes, script.length ≤ longer.length →
      listing.addressWidth ≤ (ofScript names minimum longer).addressWidth) ∧
    (listing.addressWidth ≤ Line.maxWidth → ∃ texts, listing.lineTexts? = some texts ∧
      List.Forall₂ (fun i text => Line.Begins listing.addressWidth i.position text)
        instructions texts ∧
      texts.Pairwise (· < ·)) := by
  intro listing instructions
  let width := columnWidth script.length minimum
  have hpos : 0 < width := columnWidth_pos ..
  have hfits : ∀ i ∈ instructions, i.position < 10 ^ width := fun i hi =>
    Nat.lt_trans (position_lt_length hi) (lt_pow_columnWidth ..)
  refine ⟨⟨_, Decimal.isLeast_length_digits _, max_comm _ _⟩,
    fun longer h => columnWidth_mono h minimum, fun hwidth => ?_⟩
  refine ⟨_, lineTexts?_of_le hwidth, ?_, ?_⟩
  · rw [toList_lines_ofScript, List.map_map, List.forall₂_map_right_iff, List.forall₂_same]
    exact fun i hi => Line.begins_row hpos (hfits i hi) names
  · rw [toList_lines_ofScript, List.map_map, List.pairwise_map]
    refine (pairwise_position_lt script).imp_of_mem fun _ hj hlt => ?_
    exact Line.row_lt_row hpos hlt (hfits _ hj)

/-- Eleven instructions: the last address has one digit more than the first ones. -/
theorem lineTexts?_ofScript_ascend_crossing :
    let script : Bytes := List.replicate 10 0x61 ++ [0x66]
    let listing := ofScript Interop.noNames 0 script
    listing.addressWidth ≤ Line.maxWidth ∧
      ∃ texts, listing.lineTexts? = some texts ∧ texts[9]? = some "09 NOP" ∧
        texts[10]? = some "10 RET" ∧ List.Forall₂ (Line.Begins 2) (List.range 11) texts ∧
        texts.Pairwise (· < ·) := by
  intro script listing
  obtain ⟨-, -, htexts⟩ := lineTexts?_ofScript_ascend Interop.noNames 0 script
  have htwo : (ofScript Interop.noNames 0 script).addressWidth = 2 := by decide
  have hwidth : listing.addressWidth ≤ Line.maxWidth := by decide
  obtain ⟨texts, hlines, hbegins, hpairwise⟩ := htexts hwidth
  have hshown : ∃ texts, listing.lineTexts? = some texts ∧ texts[9]? = some "09 NOP" ∧
      texts[10]? = some "10 RET" := ⟨_, lineTexts?_of_le hwidth, by decide +kernel⟩
  obtain ⟨shown, hshown, hnine, hten⟩ := hshown
  obtain rfl := Option.some.inj (hlines.symm.trans hshown)
  have hpositions : (decoded (list script)).map Instruction.position = List.range 11 := by
    decide +kernel
  refine ⟨hwidth, texts, hlines, hnine, hten, ?_, hpairwise⟩
  rw [htwo] at hbegins
  rwa [← hpositions, List.forall₂_map_left_iff]

end Listing
end ScriptScope

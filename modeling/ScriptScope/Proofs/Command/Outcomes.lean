import ScriptScope.Command
import ScriptScope.Proofs.Listing.AddressColumn
import ScriptScope.Proofs.Listing.Breaks
import ScriptScope.Proofs.Script.Checked

/-!
# ScriptScope.Proofs.Command.Outcomes

How the listing command can end. `disasm?` is the command with every sum, every slice and every
column checked; `none` stands for a check that fails in the middle of the run.

A settings file that gives the address column more than `Line.maxWidth` characters is read like any
other, and no line can be written in so wide a column. This is the only way to end without a report:

* `printScript?_eq`: a script is printed in full, up to the instruction that is cut off, unless
  there is a line to write and no column for it.
* `disasm?_ends`: the command gives no report if and only if the settings ask for such a column and
  the script has an instruction; in every other run it ends as `Ends` says, with a line for each
  instruction in the output.
-/

namespace ScriptScope
namespace Command

open Instruction

/-- The lines of a script, each ended by a line break. -/
def rows (minimum : Nat) (script : Bytes) : List String :=
  (decoded (list script)).map fun i =>
    (Line.ofInstruction Interop.builtin.resolve i).row
      (Listing.columnWidth script.length minimum) ++ "\n"

/-- Why a listing is a failure, if it is one. -/
def listingCauses (path : String) (fault : Option DecodeError) : List Cause :=
  fault.elim [] fun fault => [.scriptCutOff path, .decode fault]

def printScript? (path : String) (minimum : Nat) (script : Bytes) : Option Report :=
  (Checked.list? script).bind fun items =>
    ((decoded items).mapM (Checked.line? Interop.builtin.resolve)).bind fun lines =>
      (lines.mapM (Line.text? (Listing.columnWidth script.length minimum))).map fun texts =>
        ⟨String.join (texts.map (· ++ "\n")), listingCauses path (fault? items)⟩

/-- The listing command, as `disasm`, with every sum, slice and column checked. -/
def disasm? (files : Files) (settingsPath scriptPath : String) (asHex : Bool) : Option Report :=
  match loadSettings files settingsPath with
  | .error causes => some ⟨"", causes⟩
  | .ok settings =>
    match readScript files scriptPath asHex with
    | .error causes => some ⟨"", causes⟩
    | .ok script => printScript? scriptPath settings.addressWidth script

section

variable (files : Files) (settingsPath scriptPath : String) (asHex : Bool)

/-- How a run ends that gives a report. -/
inductive Ends : Report → Prop where
  | badSettings {causes : List Cause} :
      loadSettings files settingsPath = .error causes → causes ≠ [] → Ends ⟨"", causes⟩
  | badScript {settings : Settings} {causes : List Cause} :
      loadSettings files settingsPath = .ok settings →
      readScript files scriptPath asHex = .error causes → causes ≠ [] → Ends ⟨"", causes⟩
  | listed {settings : Settings} {script : Bytes} :
      loadSettings files settingsPath = .ok settings →
      readScript files scriptPath asHex = .ok script → fault? (list script) = none →
      Ends ⟨String.join (rows settings.addressWidth script), []⟩
  | cutOff {settings : Settings} {script : Bytes} {fault : DecodeError} :
      loadSettings files settingsPath = .ok settings →
      readScript files scriptPath asHex = .ok script → fault? (list script) = some fault →
      Ends ⟨String.join (rows settings.addressWidth script),
        [.scriptCutOff scriptPath, .decode fault]⟩

/-- The settings ask for a column that is too wide, and there is a line to write in it. -/
structure Unwritable (width : Nat) : Prop where
  tooWide : Line.maxWidth < width
  asked : ∃ settings, loadSettings files settingsPath = .ok settings ∧
    settings.addressWidth = width
  line : ∃ script, readScript files scriptPath asHex = .ok script ∧ decoded (list script) ≠ []

end

theorem mapM_eq_some_map {f : α → Option β} {g : α → β} {as : List α}
    (h : ∀ a ∈ as, f a = some (g a)) : as.mapM f = some (as.map g) := by
  induction as with
  | nil => rfl
  | cons a as ih =>
    obtain ⟨ha, has⟩ := List.forall_mem_cons.1 h
    rw [List.mapM_cons, ha, ih has]
    rfl

theorem maxWidth_lt_columnWidth_iff {length : Nat} (h : length < Decimal.limit64) (minimum : Nat) :
    Line.maxWidth < Listing.columnWidth length minimum ↔ Line.maxWidth < minimum := by
  constructor
  · intro hwide
    by_contra hle
    exact absurd (Listing.columnWidth_le h (Nat.le_of_not_lt hle)) (Nat.not_le_of_lt hwide)
  · intro hwide
    exact Nat.lt_of_lt_of_le hwide (Nat.le_max_right _ _)

theorem columnWidth_of_lt {length minimum : Nat} (h : length < Decimal.limit64)
    (hwide : Line.maxWidth < minimum) : Listing.columnWidth length minimum = minimum := by
  have hdigits := Listing.columnWidth_le h (Nat.zero_le Line.maxWidth)
  rw [Listing.columnWidth, Nat.max_zero] at hdigits
  exact Nat.max_eq_right (hdigits.trans (Nat.le_of_lt hwide))

theorem length_lt_limit64 {script : Bytes} (h : script.length ≤ Checked.maxLength) :
    script.length < Decimal.limit64 :=
  Nat.lt_of_le_of_lt h (by decide)

theorem mapM_line?_decoded {script : Bytes} (h : script.length ≤ Checked.maxLength)
    (names : SyscallNames) :
    (decoded (list script)).mapM (Checked.line? names) =
      some ((decoded (list script)).map (Line.ofInstruction names)) := by
  refine mapM_eq_some_map fun i hi => Checked.line?_eq names ?_
  exact Nat.lt_of_lt_of_le (Listing.position_lt_length hi) h

theorem printScript?_eq {script : Bytes} (h : script.length ≤ Checked.maxLength) (path : String)
    (minimum : Nat) :
    printScript? path minimum script =
      if decoded (list script) ≠ [] ∧ Line.maxWidth < minimum then none
      else some ⟨String.join (rows minimum script), listingCauses path (fault? (list script))⟩ := by
  have hlimit := length_lt_limit64 h
  rw [printScript?, Checked.list?_eq hlimit, Option.bind_some, mapM_line?_decoded h,
    Option.bind_some]
  by_cases hwide : Line.maxWidth < minimum
  · have hcolumn := (maxWidth_lt_columnWidth_iff hlimit minimum).2 hwide
    cases hlines : decoded (list script) with
    | nil =>
      rw [if_neg (by simp), rows, hlines]
      rfl
    | cons i rest =>
      have htext : Line.text? (Listing.columnWidth script.length minimum)
          (Line.ofInstruction Interop.builtin.resolve i) = none := if_neg (Nat.not_le_of_lt hcolumn)
      rw [if_pos ⟨List.cons_ne_nil _ _, hwide⟩, List.map_cons, List.mapM_cons, htext]
      rfl
  · have hcolumn := Listing.columnWidth_le hlimit (Nat.le_of_not_lt hwide)
    rw [if_neg fun hboth => hwide hboth.2,
      mapM_eq_some_map fun line _ => Line.text?_of_le hcolumn line, rows]
    simp only [Option.map_some, List.map_map]
    rfl

/-- The command as it runs, where a check that fails is the fault of the column. -/
theorem printListing_ofScript {script : Bytes} (h : script.length ≤ Checked.maxLength)
    (path : String) (minimum : Nat) :
    printListing path (Listing.ofScript Interop.builtin.resolve minimum script) =
      (printScript? path minimum script).getD
        ⟨"", [.columnTooWide (Listing.columnWidth script.length minimum)]⟩ := by
  let listing := Listing.ofScript Interop.builtin.resolve minimum script
  have hprinted : printScript? path minimum script =
      listing.text?.map fun text => ⟨text, listingCauses path listing.truncated⟩ := by
    rw [printScript?, Checked.list?_eq (length_lt_limit64 h), Option.bind_some,
      mapM_line?_decoded h, Option.bind_some, Listing.text?, Listing.lineTexts?,
      Listing.toList_lines_ofScript, Option.map_map]
    rfl
  rw [hprinted, printListing]
  cases hcut : listing.truncated with
  | none => cases listing.text? <;> rfl
  | some fault => cases listing.text? <;> rfl

section

variable {files : Files} {settingsPath scriptPath : String} {asHex : Bool} {causes : List Cause}
  {settings : Settings} {script : Bytes}

theorem loadSettings_error_ne_nil (h : loadSettings files settingsPath = .error causes) :
    causes ≠ [] := by
  unfold loadSettings at h
  split at h
  · cases h
  · split at h
    · cases h
      exact List.cons_ne_nil _ _
    · split at h
      · cases h
        exact List.cons_ne_nil _ _
      · cases h

theorem decodeHex_error_ne_nil {path text : String} (h : decodeHex path text = .error causes) :
    causes ≠ [] := by
  unfold decodeHex at h
  split at h
  · cases h
  · cases h
    exact List.cons_ne_nil _ _

theorem readScript_error_ne_nil (h : readScript files scriptPath asHex = .error causes) :
    causes ≠ [] := by
  unfold readScript at h
  split at h
  · cases h
    exact List.cons_ne_nil _ _
  · split at h
    · split at h
      · cases h
        exact List.cons_ne_nil _ _
      · exact decodeHex_error_ne_nil h
    · cases h

theorem disasm?_of_ok (hsettings : loadSettings files settingsPath = .ok settings)
    (hscript : readScript files scriptPath asHex = .ok script) :
    disasm? files settingsPath scriptPath asHex =
      printScript? scriptPath settings.addressWidth script := by
  rw [disasm?, hsettings]
  simp only [hscript]

theorem disasm_of_ok (hsettings : loadSettings files settingsPath = .ok settings)
    (hscript : readScript files scriptPath asHex = .ok script) :
    disasm files settingsPath scriptPath asHex = printListing scriptPath
      (Listing.ofScript Interop.builtin.resolve settings.addressWidth script) := by
  rw [disasm, hsettings]
  simp only [hscript]

theorem ends_listing (hsettings : loadSettings files settingsPath = .ok settings)
    (hscript : readScript files scriptPath asHex = .ok script) :
    Ends files settingsPath scriptPath asHex
      ⟨String.join (rows settings.addressWidth script),
        listingCauses scriptPath (fault? (list script))⟩ := by
  cases hfault : fault? (list script) with
  | none => exact .listed hsettings hscript hfault
  | some fault => exact .cutOff hsettings hscript hfault

theorem unwritable_iff (hsettings : loadSettings files settingsPath = .ok settings)
    (hscript : readScript files scriptPath asHex = .ok script) {width : Nat} :
    Unwritable files settingsPath scriptPath asHex width ↔
      settings.addressWidth = width ∧ decoded (list script) ≠ [] ∧
        Line.maxWidth < settings.addressWidth := by
  constructor
  · rintro ⟨hwide, ⟨settings', hsettings', rfl⟩, ⟨script', hscript', hlines⟩⟩
    rw [hsettings] at hsettings'
    rw [hscript] at hscript'
    cases hsettings'
    cases hscript'
    exact ⟨rfl, hlines, hwide⟩
  · rintro ⟨rfl, hlines, hwide⟩
    exact ⟨hwide, ⟨settings, hsettings, rfl⟩, ⟨script, hscript, hlines⟩⟩

theorem disasm?_ends
    (hlength : ∀ script, readScript files scriptPath asHex = .ok script →
      script.length ≤ Checked.maxLength) :
    let report := disasm files settingsPath scriptPath asHex
    ((∀ width, ¬Unwritable files settingsPath scriptPath asHex width) ∧
      disasm? files settingsPath scriptPath asHex = some report ∧
      Ends files settingsPath scriptPath asHex report) ∨
    ∃ width, Unwritable files settingsPath scriptPath asHex width ∧
      disasm? files settingsPath scriptPath asHex = none ∧
      report = ⟨"", [.columnTooWide width]⟩ := by
  intro report
  cases hsettings : loadSettings files settingsPath with
  | error causes =>
    have hchecked : disasm? files settingsPath scriptPath asHex = some ⟨"", causes⟩ := by
      rw [disasm?, hsettings]
    have hrun : report = ⟨"", causes⟩ := by
      simp only [report, disasm, hsettings]
    refine .inl ⟨?_, hrun ▸ hchecked, hrun ▸ ?_⟩
    · rintro width ⟨-, ⟨settings, hsettings', -⟩, -⟩
      rw [hsettings] at hsettings'
      cases hsettings'
    · exact .badSettings hsettings (loadSettings_error_ne_nil hsettings)
  | ok settings =>
    cases hscript : readScript files scriptPath asHex with
    | error causes =>
      have hchecked : disasm? files settingsPath scriptPath asHex = some ⟨"", causes⟩ := by
        rw [disasm?, hsettings]
        simp only [hscript]
      have hrun : report = ⟨"", causes⟩ := by
        simp only [report, disasm, hsettings, hscript]
      refine .inl ⟨?_, hrun ▸ hchecked, hrun ▸ ?_⟩
      · rintro width ⟨-, -, ⟨script, hscript', -⟩⟩
        rw [hscript] at hscript'
        cases hscript'
      · exact .badScript hsettings hscript (readScript_error_ne_nil hscript)
    | ok script =>
      have hlist := hlength script hscript
      have hchecked := disasm?_of_ok hsettings hscript
      have hrun : report = _ := disasm_of_ok hsettings hscript
      rw [printListing_ofScript hlist] at hrun
      rw [printScript?_eq hlist] at hchecked hrun
      by_cases hwide : decoded (list script) ≠ [] ∧ Line.maxWidth < settings.addressWidth
      · rw [if_pos hwide] at hchecked hrun
        refine .inr ⟨settings.addressWidth, ?_, hchecked, ?_⟩
        · exact (unwritable_iff hsettings hscript).2 ⟨rfl, hwide⟩
        · rw [columnWidth_of_lt (length_lt_limit64 hlist) hwide.2] at hrun
          exact hrun
      · rw [if_neg hwide] at hchecked
        rw [if_neg hwide, Option.getD_some] at hrun
        rw [hrun]
        refine .inl ⟨fun width hwidth => ?_, hchecked, ends_listing hsettings hscript⟩
        exact hwide ((unwritable_iff hsettings hscript).1 hwidth).2

end

/-- A file of settings and a file with the bytes of a script. -/
def settingsAnd (settings : String) (script : Bytes) : Files :=
  fun asked =>
    if asked = ".ndb.toml" then some (Utf8.encode settings)
    else if asked = "demo.avm" then some script
    else none

/-- A column of five characters can be written, one of 65536 cannot. -/
theorem disasm?_ends_widths :
    let files (settings : String) := settingsAnd settings [0x61, 0x02, 0x41]
    (∀ settings script, readScript (files settings) "demo.avm" false = .ok script →
      script.length ≤ Checked.maxLength) ∧
    Ends (files "address_width = 5\n") ".ndb.toml" "demo.avm" false
      ⟨"00000 NOP\n", [.scriptCutOff "demo.avm", .decode (.truncated 1 ⟨2⟩ 2 1)]⟩ ∧
    disasm? (files "address_width = 65536\n") ".ndb.toml" "demo.avm" false = none := by
  intro files
  have hlength : ∀ settings script, readScript (files settings) "demo.avm" false = .ok script →
      script.length ≤ Checked.maxLength := by
    rintro settings script hscript
    cases hscript
    decide
  have hwritten : disasm (files "address_width = 5\n") ".ndb.toml" "demo.avm" false =
      ⟨"00000 NOP\n", [.scriptCutOff "demo.avm", .decode (.truncated 1 ⟨2⟩ 2 1)]⟩ := by
    decide +kernel
  refine ⟨hlength, ?_, ?_⟩
  · rcases @disasm?_ends _ ".ndb.toml" _ _ (hlength "address_width = 5\n") with
      ⟨-, -, hends⟩ | ⟨width, -, -, hrun⟩
    · rwa [hwritten] at hends
    · have houtput : "00000 NOP\n" = "" := congrArg Report.output (hwritten.symm.trans hrun)
      exact absurd houtput (by decide)
  · rcases @disasm?_ends _ ".ndb.toml" _ _ (hlength "address_width = 65536\n") with
      ⟨hno, -, -⟩ | ⟨width, -, hnone, -⟩
    · refine absurd ?_ (hno 65536)
      exact ⟨by decide, ⟨{ addressWidth := 65536 }, by decide +kernel, rfl⟩,
        ⟨[0x61, 0x02, 0x41], rfl, by decide +kernel⟩⟩
    · exact hnone

/-- Settings that are read and a script that is read do not give a report. -/
theorem not_disasm?_ends_always :
    ¬∀ (files : Files) (settingsPath scriptPath : String) (asHex : Bool) (settings : Settings)
      (script : Bytes), loadSettings files settingsPath = .ok settings →
      readScript files scriptPath asHex = .ok script →
      ∃ report, disasm? files settingsPath scriptPath asHex = some report := by
  intro h
  let files := settingsAnd "address_width = 65536\n" [0x66]
  have hsettings : loadSettings files ".ndb.toml" = .ok { addressWidth := 65536 } := by
    decide +kernel
  have hscript : readScript files "demo.avm" false = .ok [0x66] := rfl
  obtain ⟨report, hreport⟩ := h files ".ndb.toml" "demo.avm" false _ _ hsettings hscript
  have hline : decoded (list [0x66]) ≠ [] := by decide +kernel
  have hnone : printScript? "demo.avm" 65536 [0x66] = none := by
    rw [printScript?_eq (by decide), if_pos ⟨hline, by decide⟩]
  rw [disasm?_of_ok hsettings hscript, hnone] at hreport
  cases hreport

end Command
end ScriptScope

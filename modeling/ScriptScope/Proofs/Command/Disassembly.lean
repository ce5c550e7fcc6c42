import ScriptScope.Command
import ScriptScope.Proofs.Text.Hexadecimal

/-!
# ScriptScope.Proofs.Command.Disassembly

The listing command, for a file that holds the bytes of a script and for one that holds their
hexadecimal text.

* `printListing_lists`: a listing is printed as far as it goes, and the failure behind it is that of
  the instruction that is cut off.
* `readScript_hex`, `readScript_not_hex`: a text gives the script that it writes, and a text that
  writes none is the fault of its digits.
* `disasm_lists`: both kinds of file are listed alike, and of a text that writes no script nothing
  is printed.
-/

namespace ScriptScope
namespace Command

/-- What is reported of a script: its listing, and behind a listing that is cut short the reason. -/
structure Lists (path : String) (listing : Listing) (report : Report) : Prop where
  printed : listing.text? = some report.output
  isOk_eq : report.isOk = listing.isComplete
  chain : ∀ fault, listing.truncated = some fault →
    report.failure.map Cause.message = [path ++ " is truncated", fault.message]

theorem printListing_lists (path : String) {listing : Listing}
    (h : listing.addressWidth ≤ Line.maxWidth) :
    Lists path listing (printListing path listing) := by
  obtain ⟨text, htext⟩ := Listing.exists_text? h
  cases hcut : listing.truncated with
  | none =>
    have hreport : printListing path listing = ⟨text, []⟩ := by
      simp only [printListing, htext, hcut]
    rw [hreport]
    refine ⟨htext, ?_, ?_⟩
    · rw [Listing.isComplete, hcut]
      rfl
    · intro fault hfault
      rw [hcut] at hfault
      cases hfault
  | some fault =>
    have hreport : printListing path listing = ⟨text, [.scriptCutOff path, .decode fault]⟩ := by
      simp only [printListing, htext, hcut]
    rw [hreport]
    refine ⟨htext, ?_, ?_⟩
    · rw [Listing.isComplete, hcut]
      rfl
    · intro other hother
      rw [hcut] at hother
      cases hother
      rfl

section

variable {files : Files} {settingsPath scriptPath : String} {content : Bytes}

theorem readScript_raw (hfile : files scriptPath = some content) :
    readScript files scriptPath false = .ok content := by
  rw [readScript, hfile]
  rfl

theorem readScript_text (hfile : files scriptPath = some content) {text : String}
    (htext : Utf8.decode? content = some text) :
    readScript files scriptPath true = decodeHex scriptPath text := by
  rw [readScript, hfile]
  simp only [if_true, htext]

theorem readScript_hex (hfile : files scriptPath = some content) {text : String}
    (htext : Utf8.decode? content = some text) {script : Bytes}
    (hwrites : Hex.Writes Hex.markers script text.toList) :
    readScript files scriptPath true = .ok script := by
  rw [readScript_text hfile htext, decodeHex, Hex.decode_trim_eq_ok_iff.2 hwrites]

theorem readScript_not_hex (hfile : files scriptPath = some content) {text : String}
    (htext : Utf8.decode? content = some text)
    (hwrites : ∀ script, ¬Hex.Writes Hex.markers script text.toList) :
    ∃ fault, readScript files scriptPath true = .error [.notHex scriptPath, .hex fault] := by
  rw [readScript_text hfile htext, decodeHex]
  cases hdecode : Hex.decode (String.ofList (Text.trim text.toList)) with
  | ok script => exact absurd (Hex.decode_trim_eq_ok_iff.1 hdecode) (hwrites script)
  | error fault => exact ⟨fault, rfl⟩

theorem disasm_of_script {settings : Settings}
    (hsettings : loadSettings files settingsPath = .ok settings) {asHex : Bool} {script : Bytes}
    (hscript : readScript files scriptPath asHex = .ok script)
    (hwidth : Listing.columnWidth script.length settings.addressWidth ≤ Line.maxWidth) :
    Lists scriptPath (Listing.ofScript Interop.builtin.resolve settings.addressWidth script)
      (disasm files settingsPath scriptPath asHex) := by
  rw [disasm, hsettings]
  simp only [hscript]
  exact printListing_lists scriptPath hwidth

theorem disasm_lists {settings : Settings}
    (hsettings : loadSettings files settingsPath = .ok settings)
    (hfile : files scriptPath = some content) :
    (Listing.columnWidth content.length settings.addressWidth ≤ Line.maxWidth →
      Lists scriptPath (Listing.ofScript Interop.builtin.resolve settings.addressWidth content)
        (disasm files settingsPath scriptPath false)) ∧
    ∀ text, Utf8.decode? content = some text →
      (∀ script, Hex.Writes Hex.markers script text.toList →
        Listing.columnWidth script.length settings.addressWidth ≤ Line.maxWidth →
        Lists scriptPath (Listing.ofScript Interop.builtin.resolve settings.addressWidth script)
          (disasm files settingsPath scriptPath true)) ∧
      ((∀ script, ¬Hex.Writes Hex.markers script text.toList) →
        (disasm files settingsPath scriptPath true).output = "" ∧
        ∃ fault : Hex.Fault,
          (disasm files settingsPath scriptPath true).failure.map Cause.message =
            [scriptPath ++ " is not valid hex", fault.message]) := by
  refine ⟨disasm_of_script hsettings (readScript_raw hfile), ?_⟩
  intro text htext
  constructor
  · intro script hwrites
    exact disasm_of_script hsettings (readScript_hex hfile htext hwrites)
  · intro hwrites
    obtain ⟨fault, hfault⟩ := readScript_not_hex hfile htext hwrites
    have hreport : disasm files settingsPath scriptPath true =
        ⟨"", [.notHex scriptPath, .hex fault]⟩ := by
      rw [disasm, hsettings]
      simp only [hfault]
    rw [hreport]
    exact ⟨rfl, fault, rfl⟩

end

/-- One file and no settings. -/
def only (path text : String) : Files :=
  fun asked => if asked = path then some (Utf8.encode text) else none

theorem disasm_lists_demo :
    Lists "demo.avm" (Listing.ofScript Interop.builtin.resolve 3 (Utf8.encode " 0X210c0341\n"))
      (disasm (only "demo.avm" " 0X210c0341\n") ".ndb.toml" "demo.avm" false) ∧
    Lists "demo.avm" (Listing.ofScript Interop.builtin.resolve 3 [0x21, 0x0C, 0x03, 0x41])
      (disasm (only "demo.avm" " 0X210c0341\n") ".ndb.toml" "demo.avm" true) ∧
    (disasm (only "demo.avm" "0x210") ".ndb.toml" "demo.avm" true).output = "" := by
  have hspells : Hex.Spells ['2', '1', '0', 'c', '0', '3', '4', '1'] [0x21, 0x0C, 0x03, 0x41] :=
    Hex.spells_encode [0x21, 0x0C, 0x03, 0x41]
  have hwrites : Hex.Writes Hex.markers [0x21, 0x0C, 0x03, 0x41]
      ([' '] ++ (['0', 'X'] ++ ['2', '1', '0', 'c', '0', '3', '4', '1']) ++ ['\n']) :=
    .intro (by simp [Text.isBlank]) (by simp [Hex.markers]) hspells (by simp [Text.isBlank])
  have hodd : ∀ script, ¬Hex.Writes Hex.markers script "0x210".toList := by
    intro script hscript
    have hdecode : Hex.decode (String.ofList (Text.trim "0x210".toList)) = .error .oddLength := by
      decide
    rw [Hex.decode_trim_eq_ok_iff.2 hscript] at hdecode
    cases hdecode
  have hsettings : ∀ text, loadSettings (only "demo.avm" text) ".ndb.toml" = .ok {} := fun _ => rfl
  have hfile : ∀ text, only "demo.avm" text "demo.avm" = some (Utf8.encode text) := fun _ => rfl
  obtain ⟨hraw, htext⟩ := disasm_lists (hsettings " 0X210c0341\n") (hfile " 0X210c0341\n")
  obtain ⟨-, hrefused⟩ := disasm_lists (hsettings "0x210") (hfile "0x210")
  exact ⟨hraw (by decide), (htext _ (Utf8.decode?_encode _)).1 _ hwrites (by decide),
    ((hrefused _ (Utf8.decode?_encode _)).2 hodd).1⟩

/-- A marker with a capital letter is a marker too. -/
theorem not_disasm_refuses_upper_marker :
    ¬∀ (files : Files) (settingsPath scriptPath text : String) (settings : Settings),
      loadSettings files settingsPath = .ok settings →
      files scriptPath = some (Utf8.encode text) →
      (∀ script, ¬Hex.Writes [[], ['0', 'x']] script text.toList) →
      (disasm files settingsPath scriptPath true).output = "" := by
  intro h
  have hclaim := h (only "demo.avm" "0X6166") ".ndb.toml" "demo.avm" "0X6166" {} rfl rfl ?_
  · exact absurd hclaim (by decide +kernel)
  · intro script hwrites
    obtain ⟨marker, hmarker, digits, hspells, htrim⟩ :=
      (Hex.writes_iff (by decide)).1 hwrites
    have hwhole : Text.trim "0X6166".toList = ['0', 'X', '6', '1', '6', '6'] := by decide
    rw [hwhole] at htrim
    simp only [List.mem_cons, List.not_mem_nil, or_false] at hmarker
    rcases hmarker with rfl | rfl
    · rw [List.nil_append] at htrim
      subst htrim
      cases hspells with
      | cons _ hmark _ =>
        exact absurd (Hex.digitValue?_eq_some_iff.2 hmark) (by simp [Hex.digitValue?])
    · exact absurd (List.cons.inj (List.cons.inj htrim).2).1 (by decide)

end Command
end ScriptScope

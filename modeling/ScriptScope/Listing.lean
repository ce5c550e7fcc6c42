import ScriptScope.Listing.Line

/-!
# ScriptScope.Listing

The listing of a script: a line for every instruction up to the first one that is cut off, the
fault if there is one, and the width of the address column.

* `Listing.lineAt?`: looks an address up by halving, since the addresses of the lines ascend.
* `Listing.text?`: an empty listing has a text at every width; any other needs a column that can be
  written.
-/

namespace ScriptScope

structure Listing where
  /-- Lines in the order of their addresses. -/
  lines : Array Line
  /-- The fault that ended the listing early. -/
  truncated : Option DecodeError
  /-- Width of the address column. -/
  addressWidth : Nat

namespace Listing

/-- Width of the address column for a script of `length` bytes, and at least `minimum`. -/
def columnWidth (length minimum : Nat) : Nat :=
  max (Decimal.digits length).length minimum

/-- The listing of a script with an address column of at least `minimum` characters. -/
def ofScript (names : SyscallNames) (minimum : Nat) (script : Bytes) : Listing :=
  let items := Instruction.list script
  { lines := (items.filterMap fun
      | .ok i => some (Line.ofInstruction names i)
      | .error _ => none).toArray
    truncated := items.findSome? fun
      | .ok _ => none
      | .error e => some e
    addressWidth := columnWidth script.length minimum }

theorem toList_lines_ofScript (names : SyscallNames) (minimum : Nat) (script : Bytes) :
    (ofScript names minimum script).lines.toList =
      (Instruction.decoded (Instruction.list script)).map (Line.ofInstruction names) := by
  simp only [ofScript]
  induction Instruction.list script with
  | nil => rfl
  | cons item items ih =>
    cases item with
    | ok i => simpa using ih
    | error e => simpa using ih

theorem truncated_ofScript (names : SyscallNames) (minimum : Nat) (script : Bytes) :
    (ofScript names minimum script).truncated = Instruction.fault? (Instruction.list script) := rfl

/-- Whether the whole script was listed. -/
def isComplete (listing : Listing) : Bool :=
  listing.truncated.isNone

/-- The line with an address, looked for between two places of the lines. -/
def searchBetween (lines : Array Line) (address low high : Nat) : Option Line :=
  if h : low < high ∧ high ≤ lines.size then
    let middle := (low + high) / 2
    have : middle < lines.size := by omega
    let line := lines[middle]
    if line.address = address then some line
    else if line.address < address then searchBetween lines address (middle + 1) high
    else searchBetween lines address low middle
  else none
termination_by high - low

/-- The line of the instruction that begins at an address. -/
def lineAt? (listing : Listing) (address : Nat) : Option Line :=
  searchBetween listing.lines address 0 listing.lines.size

def lineTexts? (listing : Listing) : Option (List String) :=
  listing.lines.toList.mapM (Line.text? listing.addressWidth)

/-- The text of the listing: its lines, each ended by a line break. -/
def text? (listing : Listing) : Option String :=
  listing.lineTexts?.map fun texts => String.join (texts.map (· ++ "\n"))

theorem lineTexts?_of_le {listing : Listing} (h : listing.addressWidth ≤ Line.maxWidth) :
    listing.lineTexts? = some (listing.lines.toList.map (Line.row listing.addressWidth)) := by
  have hline : Line.text? listing.addressWidth =
      fun line => pure (line.row listing.addressWidth) :=
    funext (Line.text?_of_le h)
  rw [lineTexts?, hline, List.mapM_pure]
  rfl

theorem exists_text? {listing : Listing} (h : listing.addressWidth ≤ Line.maxWidth) :
    ∃ text, listing.text? = some text := by
  rw [text?, lineTexts?_of_le h]
  exact ⟨_, rfl⟩

end Listing
end ScriptScope

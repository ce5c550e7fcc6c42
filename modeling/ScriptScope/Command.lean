import ScriptScope.DebugInfo.File
import ScriptScope.DebugInfo.Location
import ScriptScope.Listing
import ScriptScope.Settings.File
import ScriptScope.Text.Quoted

/-!
# ScriptScope.Command

The two commands, as functions of the files they read.

A command gives what it prints and why it failed, if it did. What was printed before a failure
stays printed: the listing of a script that is cut off ends with its last whole instruction.

* `disasm`: the settings are read first, then the script; nothing is printed if either fails.
* `source`: the script is read first, then the debug information.
-/

namespace ScriptScope
namespace Command

/-- The contents of the files that there are. -/
abbrev Files := String → Option Bytes

inductive Cause where
  | cannotLoad (path : String)
  | cannotReadSettings (path : String)
  | badSettings
  | cannotRead (path : String)
  | cannotReadInfo (path : String)
  | cannotParseInfo (path : String)
  | missingFile
  | notText
  | notHex (path : String)
  | hex (fault : Hex.Fault)
  | scriptCutOff (path : String)
  | decode (fault : DecodeError)
  | info (fault : DebugFault)
  | scriptHash (fault : ScriptHash.Fault)
  | ambiguous (ambiguity : Ambiguity)
  /-- The address column is wider than a column can be. -/
  | columnTooWide (width : Nat)
deriving DecidableEq, Repr

def Cause.message : Cause → String
  | .cannotLoad path => "Failed to load " ++ path
  | .cannotReadSettings path =>
    "Failed to read config file: " ++ String.ofList (Quoted.text path.toList)
  | .badSettings => "Failed to parse config file as TOML"
  | .cannotRead path => "Failed to read " ++ path
  | .cannotReadInfo path => "Failed to read debug info: " ++ path
  | .cannotParseInfo path => "Failed to parse debug info: " ++ path
  | .missingFile => "No such file or directory (os error 2)"
  | .notText => "stream did not contain valid UTF-8"
  | .notHex path => path ++ " is not valid hex"
  | .hex fault => fault.message
  | .scriptCutOff path => path ++ " is truncated"
  | .decode fault => fault.message
  | .info fault => fault.message
  | .scriptHash fault => fault.message
  | .ambiguous ambiguity => ambiguity.message
  | .columnTooWide width => "address column of width " ++ toString width ++ " is too wide"

/-- What a command printed, and why it failed, the outermost reason first. -/
structure Report where
  output : String
  failure : List Cause
deriving DecidableEq, Repr

def Report.isOk (r : Report) : Bool :=
  r.failure.isEmpty

/-- The name of the file of settings in the home directory. -/
def settingsFile : String := ".ndb.toml"

/-- The settings in a file; the defaults when there is no file. -/
def loadSettings (files : Files) (path : String) : Except (List Cause) Settings :=
  match files path with
  | none => .ok {}
  | some bs =>
    match Utf8.decode? bs with
    | none => .error [.cannotLoad path, .cannotReadSettings path, .notText]
    | some text =>
      match Settings.load? text with
      | none => .error [.cannotLoad path, .badSettings]
      | some settings => .ok settings

/-- The bytes that a text without the blanks around it writes. -/
def decodeHex (path text : String) : Except (List Cause) Bytes :=
  match Hex.decode (String.ofList (Text.trim text.toList)) with
  | .ok script => .ok script
  | .error fault => .error [.notHex path, .hex fault]

/-- The script in a file, which holds its bytes or their hexadecimal text. -/
def readScript (files : Files) (path : String) (asHex : Bool) : Except (List Cause) Bytes :=
  match files path with
  | none => .error [.cannotRead path, .missingFile]
  | some bs =>
    if asHex then
      match Utf8.decode? bs with
      | none => .error [.cannotRead path, .notText]
      | some text => decodeHex path text
    else .ok bs

/-- What a file of debug information lacks. -/
def infoCauses (fault : DebugFault) : List Cause :=
  .info fault :: match fault with
    | .invalidHash fault => [.scriptHash fault]
    | _ => []

/-- The debug information in a file. -/
def loadInfo (files : Files) (path : String) : Except (List Cause) DebugInfo :=
  match files path with
  | none => .error [.cannotReadInfo path, .missingFile]
  | some bs =>
    match Utf8.decode? bs with
    | none => .error [.cannotReadInfo path, .notText]
    | some text =>
      match DebugInfo.read text with
      | .error fault => .error (.cannotParseInfo path :: infoCauses fault)
      | .ok info => .ok info

/-- Prints a listing; a script that is cut off is a failure behind it. -/
def printListing (path : String) (listing : Listing) : Report :=
  match listing.text? with
  | none => ⟨"", [.columnTooWide listing.addressWidth]⟩
  | some text =>
    match listing.truncated with
    | none => ⟨text, []⟩
    | some fault => ⟨text, [.scriptCutOff path, .decode fault]⟩

def disasm (files : Files) (settingsPath scriptPath : String) (asHex : Bool) : Report :=
  match loadSettings files settingsPath with
  | .error causes => ⟨"", causes⟩
  | .ok settings =>
    match readScript files scriptPath asHex with
    | .error causes => ⟨"", causes⟩
    | .ok script =>
      printListing scriptPath
        (Listing.ofScript Interop.builtin.resolve settings.addressWidth script)

def rangeText (document : Option String) (p : SequencePoint) : String :=
  document.getD "" ++ ":" ++ String.ofList (DebugInfo.positionChars p.start) ++ "-" ++
    String.ofList (DebugInfo.positionChars p.stop)

/-- The lines that say where an instruction comes from. -/
def locationText : Option SourceLocation → String
  | none => "method: <none>\n"
  | some l => "method: " ++ l.method.qualifiedName ++ "\nsource: " ++
      (match l.point with
        | none => "<none>"
        | some p => rangeText l.document p) ++ "\n"

/-- Prints where the instruction at an address comes from, and the instruction. -/
def source (files : Files) (scriptPath infoPath : String) (ip : Nat) (asHex : Bool) : Report :=
  match readScript files scriptPath asHex with
  | .error causes => ⟨"", causes⟩
  | .ok script =>
    match loadInfo files infoPath with
    | .error causes => ⟨"", causes⟩
    | .ok info =>
      match info.locate ip with
      | .error ambiguity => ⟨"", [.ambiguous ambiguity]⟩
      | .ok location =>
        let text := locationText location
        match Instruction.decode script ip with
        | .error fault => ⟨text, [.decode fault]⟩
        | .ok i =>
          let line := Line.ofInstruction Interop.builtin.resolve i
          ⟨text ++ "instruction: " ++ line.text ++ "\n", []⟩

end Command
end ScriptScope

import ScriptScope.Command

/-!
# ScriptScope.Main

The command line:

* `disasm <script> [--hex] [--config <file>]`
* `source <script> <debug info> <address> [--hex]`
-/

namespace ScriptScope
namespace Main

/-- What the command line asks for. -/
inductive Invocation where
  | disasm (script : String) (asHex : Bool) (config : Option String)
  | source (script info : String) (ip : Nat) (asHex : Bool)
deriving DecidableEq, Repr

/-- The arguments with the options taken out. -/
structure Arguments where
  plain : List String
  asHex : Bool
  config : Option String
deriving DecidableEq, Repr

/-- Takes the options out of the arguments. -/
def Arguments.ofList? : List String → Option Arguments
  | [] => some ⟨[], false, none⟩
  | "--config" :: file :: rest =>
    (ofList? rest).map fun a => { a with config := some file }
  | arg :: rest =>
    (ofList? rest).bind fun a =>
      if arg = "--hex" then some { a with asHex := true }
      else if arg.startsWith "--" then none
      else some { a with plain := arg :: a.plain }

/-- What the arguments ask for. -/
def Invocation.ofArguments? (args : List String) : Option Invocation :=
  match Arguments.ofList? args with
  | some ⟨["disasm", script], asHex, config⟩ => some (.disasm script asHex config)
  | some ⟨["source", script, info, ip], asHex, none⟩ =>
    (Decimal.read Decimal.limit64 ip.toList).map fun ip => .source script info ip asHex
  | _ => none

def usage : String :=
  "usage: disasm <script> [--hex] [--config <file>]\n" ++
  "       source <script> <debug info> <address> [--hex]"

/-- The contents of a file, if it can be read. -/
def readFile (path : String) : IO (Option Bytes) := do
  try
    return some (← IO.FS.readBinFile path).data.toList
  catch _ =>
    return none

/-- The given files as the commands see them. -/
def readFiles (paths : List String) : IO Command.Files := do
  let contents ← paths.mapM fun path => return (path, ← readFile path)
  return fun path => (contents.lookup path).join

/-- Where the settings are kept when the command line does not say. -/
def defaultSettingsPath : IO String := do
  return (← IO.getEnv "HOME").getD "." ++ "/" ++ Command.settingsFile

def finish (report : Command.Report) : IO UInt32 := do
  IO.print report.output
  match report.failure with
  | [] => return 0
  | cause :: causes =>
    IO.eprintln ("Error: " ++ cause.message)
    for cause in causes do
      IO.eprintln ("  " ++ cause.message)
    return 1

def run : Invocation → IO UInt32
  | .disasm script asHex config => do
    let settingsPath ← match config with
      | some path => pure path
      | none => defaultSettingsPath
    finish (Command.disasm (← readFiles [settingsPath, script]) settingsPath script asHex)
  | .source script info ip asHex => do
    finish (Command.source (← readFiles [script, info]) script info ip asHex)

end Main
end ScriptScope

def main (args : List String) : IO UInt32 := do
  match ScriptScope.Main.Invocation.ofArguments? args with
  | some invocation => ScriptScope.Main.run invocation
  | none =>
    IO.eprintln ScriptScope.Main.usage
    return 2

import ScriptScope.Settings
import ScriptScope.Toml.Reader

/-!
# ScriptScope.Settings.File

The file of settings: a TOML document with four keys, each of which may be missing. Other keys and
tables are passed over, but the document as a whole has to be one.
-/

namespace ScriptScope
namespace Settings

/-- A number under a key, or the default. -/
def numberAt? (entries : Toml.Entries) (key : String) (default : Nat) : Option Nat :=
  match entries.find? key with
  | none => some default
  | some (.leaf (.integer n)) => if 0 ≤ n ∧ n < Decimal.limit64 then some n.toNat else none
  | some _ => none

/-- A truth value under a key, or the default. -/
def flagAt? (entries : Toml.Entries) (key : String) (default : Bool) : Option Bool :=
  match entries.find? key with
  | none => some default
  | some (.leaf (.bool b)) => some b
  | some _ => none

/-- The settings in the tables of a document. -/
def ofEntries? (entries : Toml.Entries) : Option Settings := do
  let defaults : Settings := {}
  return {
    addressWidth := ← numberAt? entries "address_width" defaults.addressWidth
    hashStorageBuffers := ← flagAt? entries "hash_storage_buffers" defaults.hashStorageBuffers
    maxByteChildren := ← numberAt? entries "max_byte_children" defaults.maxByteChildren
    showAltStack := ← flagAt? entries "show_alt_stack" defaults.showAltStack }

def load? (text : String) : Option Settings :=
  (Toml.read text).bind ofEntries?

/-- A line with a key and its value. -/
def lineText (key : String) (value : List Char) : List Char :=
  key.toList ++ " = ".toList ++ value ++ ['\n']

def flagChars (b : Bool) : List Char :=
  if b then "true".toList else "false".toList

def save (s : Settings) : String :=
  String.ofList (
    lineText "address_width" (Decimal.digits s.addressWidth) ++
    lineText "hash_storage_buffers" (flagChars s.hashStorageBuffers) ++
    lineText "max_byte_children" (Decimal.digits s.maxByteChildren) ++
    lineText "show_alt_stack" (flagChars s.showAltStack))

end Settings
end ScriptScope

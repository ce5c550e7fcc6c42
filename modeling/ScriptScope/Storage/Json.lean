import ScriptScope.Json.Record
import ScriptScope.Storage

/-!
# ScriptScope.Storage.Json

Storage entries as they are exchanged. A byte string is written as a marked hexadecimal text; it is
read from such a text, marked or not, or from an array of bytes.
-/

namespace ScriptScope

open Json

namespace Bytes

/-- A byte string as marked hexadecimal text. -/
def toJson (bs : Bytes) : Json :=
  .ofText (String.ofList (Hex.marked bs))

def ofJson? (j : Json) : Option Bytes :=
  match j with
  | .scalar (.text (some text)) => (Hex.decode text).toOption
  | .array items => items.mapM fun item => (item.nat? 256).map UInt8.ofNat
  | _ => none

end Bytes

namespace StorageEntry

def toJson (entry : StorageEntry) : Json :=
  .ofFields [("key", Bytes.toJson entry.key), ("value", Bytes.toJson entry.value),
    ("is_constant", .ofBool entry.isConstant)]

def jsonRules : List FieldRule :=
  [⟨"key", .nowhere⟩, ⟨"value", .nowhere⟩, ⟨"is_constant", .nowhere⟩]

def ofJson? (j : Json) : Option StorageEntry :=
  match fields? jsonRules j with
  | some [key, value, isConstant] => do
    return ⟨← required Bytes.ofJson? key, ← required Bytes.ofJson? value,
      ← required bool? isConstant⟩
  | _ => none

end StorageEntry
end ScriptScope

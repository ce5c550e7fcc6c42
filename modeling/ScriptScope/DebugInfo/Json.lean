import ScriptScope.DebugInfo
import ScriptScope.Json.Record
import ScriptScope.Text.Blank

/-!
# ScriptScope.DebugInfo.Json

Debug information as it is exchanged: a record for every part, numbers as numbers, script hashes as
texts. Unlike the file of a compiler, this form has no texts to take apart.

* `Method.jsonRules`: the return type is the one field that an object may leave out and an array
  may not.
-/

namespace ScriptScope

open Json

def ScriptHash.toJson (h : ScriptHash) : Json :=
  .ofText h.text

def ScriptHash.ofJson? (j : Json) : Option ScriptHash :=
  j.text?.bind fun text => (ScriptHash.parse text).toOption

namespace Declaration

def toJson (d : Declaration) : Json :=
  .ofFields [("name", .ofText d.name), ("type_name", .ofText d.typeName)]

def jsonRules : List FieldRule :=
  [⟨"name", .nowhere⟩, ⟨"type_name", .nowhere⟩]

def ofJson? (j : Json) : Option Declaration :=
  match fields? jsonRules j with
  | some [name, typeName] => do
    return ⟨← required text? name, ← required text? typeName⟩
  | _ => none

end Declaration

namespace SourcePosition

def Fits (p : SourcePosition) : Prop :=
  p.line < Decimal.limit32 ∧ p.column < Decimal.limit32

def toJson (p : SourcePosition) : Json :=
  .ofFields [("line", .ofNat p.line), ("column", .ofNat p.column)]

def jsonRules : List FieldRule :=
  [⟨"line", .nowhere⟩, ⟨"column", .nowhere⟩]

def ofJson? (j : Json) : Option SourcePosition :=
  match fields? jsonRules j with
  | some [line, column] => do
    return ⟨← required (nat? Decimal.limit32) line, ← required (nat? Decimal.limit32) column⟩
  | _ => none

end SourcePosition

namespace SequencePoint

def Fits (p : SequencePoint) : Prop :=
  p.address < Decimal.limit64 ∧ p.document < Decimal.limit64 ∧ p.start.Fits ∧ p.stop.Fits

def toJson (p : SequencePoint) : Json :=
  .ofFields [("address", .ofNat p.address), ("document", .ofNat p.document),
    ("start", p.start.toJson), ("end", p.stop.toJson)]

def jsonRules : List FieldRule :=
  [⟨"address", .nowhere⟩, ⟨"document", .nowhere⟩, ⟨"start", .nowhere⟩, ⟨"end", .nowhere⟩]

def ofJson? (j : Json) : Option SequencePoint :=
  match fields? jsonRules j with
  | some [address, document, start, stop] => do
    return ⟨← required (nat? Decimal.limit64) address, ← required (nat? Decimal.limit64) document,
      ← required SourcePosition.ofJson? start, ← required SourcePosition.ofJson? stop⟩
  | _ => none

end SequencePoint

namespace Method

def Fits (m : Method) : Prop :=
  m.start < Decimal.limit64 ∧ m.stop < Decimal.limit64 ∧ ∀ p ∈ m.sequencePoints, p.Fits

def toJson (m : Method) : Json :=
  .ofFields [("id", .ofText m.id), ("namespace", .ofText m.owner), ("name", .ofText m.name),
    ("start", .ofNat m.start), ("end", .ofNat m.stop),
    ("parameters", .ofList Declaration.toJson m.parameters),
    ("variables", .ofList Declaration.toJson m.variables),
    ("return_type", .ofOption .ofText m.returnType),
    ("sequence_points", .ofList SequencePoint.toJson m.sequencePoints),
    ("script_hash", m.scriptHash.toJson)]

def jsonRules : List FieldRule :=
  [⟨"id", .nowhere⟩, ⟨"namespace", .nowhere⟩, ⟨"name", .nowhere⟩, ⟨"start", .nowhere⟩,
   ⟨"end", .nowhere⟩, ⟨"parameters", .nowhere⟩, ⟨"variables", .nowhere⟩,
   ⟨"return_type", .inObject⟩, ⟨"sequence_points", .nowhere⟩, ⟨"script_hash", .nowhere⟩]

def ofJson? (j : Json) : Option Method :=
  match fields? jsonRules j with
  | some [id, owner, name, start, stop, parameters, locals, returnType, points, hash] => do
    return {
      id := ← required text? id
      owner := ← required text? owner
      name := ← required text? name
      start := ← required (nat? Decimal.limit64) start
      stop := ← required (nat? Decimal.limit64) stop
      parameters := ← required (list? Declaration.ofJson?) parameters
      «variables» := ← required (list? Declaration.ofJson?) locals
      returnType := ← orElse none (option? text?) returnType
      sequencePoints := ← required (list? SequencePoint.ofJson?) points
      scriptHash := ← required ScriptHash.ofJson? hash }
  | _ => none

end Method

namespace DebugInfo

def Fits (info : DebugInfo) : Prop :=
  ∀ m ∈ info.methods, m.Fits

def toJson (info : DebugInfo) : Json :=
  .ofFields [("script_hash", info.scriptHash.toJson), ("entrypoint", .ofText info.entrypoint),
    ("documents", .ofList .ofText info.documents), ("methods", .ofList Method.toJson info.methods)]

def jsonRules : List FieldRule :=
  [⟨"script_hash", .nowhere⟩, ⟨"entrypoint", .nowhere⟩, ⟨"documents", .nowhere⟩,
   ⟨"methods", .nowhere⟩]

def ofJson? (j : Json) : Option DebugInfo :=
  match fields? jsonRules j with
  | some [hash, entrypoint, documents, methods] => do
    return ⟨← required ScriptHash.ofJson? hash, ← required text? entrypoint,
      ← required (list? text?) documents, ← required (list? Method.ofJson?) methods⟩
  | _ => none

end DebugInfo
end ScriptScope

import ScriptScope.DebugInfo
import ScriptScope.Json.Record
import ScriptScope.Text.Blank

/-!
# ScriptScope.DebugInfo.File

The file in which a compiler leaves debug information: a JSON document whose ranges, declarations
and sequence points are texts of their own.

* A range is `start-end`, a declaration `name,type`, a sequence point
  `address[document]line:column-line:column`. Every mark is the first of its kind.
* `DebugFile.info`: the first fault in the order of the file is the one reported; the hash comes
  first, and of a method the range, the sequence points, the parameters and the variables.
* `DebugInfo.entryOf`: writes a method as it stands in the file.
-/

namespace ScriptScope

/-- A method as the file lists it. -/
structure MethodEntry where
  id : String
  owner : String
  name : String
  range : String
  parameters : List String
  returnType : Option String
  «variables» : List String
  sequencePoints : List String
deriving DecidableEq, Repr

/-- The file as its JSON document gives it. -/
structure DebugFile where
  hash : Option String
  entrypoint : String
  documents : List String
  methods : List MethodEntry
deriving DecidableEq, Repr

/-- Why a file holds no debug information. -/
inductive DebugFault where
  /-- The document is no JSON, or lacks a field, or has one of another kind. -/
  | malformed
  | invalidRange (method range : String)
  | invalidVariable (declaration : String)
  | invalidSequencePoint (point : String)
  | unknownDocument (point : String) (document : Nat)
  | invalidHash (fault : ScriptHash.Fault)
deriving DecidableEq, Repr

def DebugFault.message : DebugFault → String
  | .malformed => "malformed debug info"
  | .invalidRange method range => "invalid range `" ++ range ++ "` in method " ++ method
  | .invalidVariable declaration => "invalid variable declaration `" ++ declaration ++ "`"
  | .invalidSequencePoint point => "invalid sequence point `" ++ point ++ "`"
  | .unknownDocument point document =>
    "sequence point `" ++ point ++ "` refers to unknown document " ++ toString document
  | .invalidHash fault => "invalid script hash: " ++ fault.message

namespace DebugFile

open Json

def methodRules : List FieldRule :=
  [⟨"id", .nowhere⟩, ⟨"namespace", .anywhere⟩, ⟨"name", .nowhere⟩, ⟨"range", .nowhere⟩,
   ⟨"params", .anywhere⟩, ⟨"return", .anywhere⟩, ⟨"variables", .anywhere⟩,
   ⟨"sequence-points", .anywhere⟩]

def methodOfJson? (j : Json) : Option MethodEntry :=
  match fields? methodRules j with
  | some [id, owner, name, range, parameters, returnType, locals, points] => do
    return {
      id := ← required text? id
      owner := ← orElse "" text? owner
      name := ← required text? name
      range := ← required text? range
      parameters := ← orElse [] (list? text?) parameters
      returnType := ← orElse none (option? text?) returnType
      «variables» := ← orElse [] (list? text?) locals
      sequencePoints := ← orElse [] (list? text?) points }
  | _ => none

def rules : List FieldRule :=
  [⟨"hash", .anywhere⟩, ⟨"entrypoint", .anywhere⟩, ⟨"documents", .anywhere⟩,
   ⟨"methods", .anywhere⟩]

def ofJson? (j : Json) : Option DebugFile :=
  match fields? rules j with
  | some [hash, entrypoint, documents, methods] => do
    return {
      hash := ← orElse none (option? text?) hash
      entrypoint := ← orElse "" text? entrypoint
      documents := ← orElse [] (list? text?) documents
      methods := ← orElse [] (list? methodOfJson?) methods }
  | _ => none

/-! ### Texts inside the document -/

/-- A number with blanks around it. -/
def readAddress? (cs : List Char) : Option Nat :=
  Decimal.read Decimal.limit64 (Text.trim cs)

def readRange? (cs : List Char) : Option (Nat × Nat) := do
  let (start, stop) ← Text.splitFirst '-' cs
  return (← readAddress? start, ← readAddress? stop)

/-- A place: line and column with a colon between, and blanks only around the whole. -/
def readPosition? (cs : List Char) : Option SourcePosition := do
  let (line, column) ← Text.splitFirst ':' (Text.trim cs)
  return ⟨← Decimal.read Decimal.limit32 line, ← Decimal.read Decimal.limit32 column⟩

/-- The four parts of a sequence point: address, document, and the two ends of the range. -/
def splitPoint? (cs : List Char) : Option (List Char × List Char × List Char × List Char) := do
  let (address, rest) ← Text.splitFirst '[' cs
  let (document, range) ← Text.splitFirst ']' rest
  let (start, stop) ← Text.splitFirst '-' range
  return (address, document, start, stop)

/-- A sequence point of a file with so many documents. -/
def readPoint (documents : Nat) (text : String) : Except DebugFault SequencePoint :=
  match splitPoint? text.toList with
  | none => .error (.invalidSequencePoint text)
  | some (address, document, start, stop) =>
    match readAddress? address, readAddress? document with
    | some address, some document =>
      if documents ≤ document then .error (.unknownDocument text document)
      else match readPosition? start, readPosition? stop with
        | some start, some stop => .ok ⟨address, document, start, stop⟩
        | _, _ => .error (.invalidSequencePoint text)
    | _, _ => .error (.invalidSequencePoint text)

/-- A declaration; a type may hold commas. -/
def readDeclaration (text : String) : Except DebugFault Declaration :=
  match Text.splitFirst ',' text.toList with
  | none => .error (.invalidVariable text)
  | some (name, typeName) =>
    .ok ⟨String.ofList (Text.trim name), String.ofList (Text.trim typeName)⟩

/-- Sequence points in ascending order of their addresses; equal addresses keep their order. -/
def sortPoints (points : List SequencePoint) : List SequencePoint :=
  points.mergeSort fun a b => a.address ≤ b.address

end DebugFile

def MethodEntry.method (entry : MethodEntry) (hash : ScriptHash) (documents : Nat) :
    Except DebugFault Method :=
  match DebugFile.readRange? entry.range.toList with
  | none => .error (.invalidRange entry.id entry.range)
  | some (start, stop) => do
    let points ← entry.sequencePoints.mapM (DebugFile.readPoint documents)
    let parameters ← entry.parameters.mapM DebugFile.readDeclaration
    let locals ← entry.variables.mapM DebugFile.readDeclaration
    return {
      id := entry.id
      owner := entry.owner
      name := entry.name
      start := start
      stop := stop
      parameters := parameters
      «variables» := locals
      returnType := entry.returnType
      sequencePoints := DebugFile.sortPoints points
      scriptHash := hash }

/-- The script hash of a file: twenty zero bytes when it names none. -/
def DebugFile.scriptHash (file : DebugFile) : Except DebugFault ScriptHash :=
  match file.hash with
  | none => .ok .zero
  | some text =>
    match ScriptHash.parse text with
    | .ok hash => .ok hash
    | .error fault => .error (.invalidHash fault)

def DebugFile.info (file : DebugFile) : Except DebugFault DebugInfo := do
  let hash ← file.scriptHash
  let methods ← file.methods.mapM fun entry => entry.method hash file.documents.length
  return ⟨hash, file.entrypoint, file.documents, methods⟩

def DebugInfo.read (text : String) : Except DebugFault DebugInfo :=
  match (Json.parse text).bind DebugFile.ofJson? with
  | none => .error .malformed
  | some file => file.info

/-! ### Writing -/

namespace DebugInfo

def rangeText (start stop : Nat) : String :=
  String.ofList (Decimal.digits start ++ '-' :: Decimal.digits stop)

def positionChars (p : SourcePosition) : List Char :=
  Decimal.digits p.line ++ ':' :: Decimal.digits p.column

def pointText (p : SequencePoint) : String :=
  String.ofList (Decimal.digits p.address ++ '[' :: Decimal.digits p.document ++ ']' ::
    positionChars p.start ++ '-' :: positionChars p.stop)

def declarationText (d : Declaration) : String :=
  d.name ++ "," ++ d.typeName

/-- A method as it stands in a file, with its sequence points in the given order. -/
def entryOf (m : Method) (points : List SequencePoint) : MethodEntry where
  id := m.id
  owner := m.owner
  name := m.name
  range := rangeText m.start m.stop
  parameters := m.parameters.map declarationText
  returnType := m.returnType
  «variables» := m.variables.map declarationText
  sequencePoints := points.map pointText

end DebugInfo
end ScriptScope

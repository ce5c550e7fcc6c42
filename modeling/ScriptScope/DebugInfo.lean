import ScriptScope.ScriptHash

/-!
# ScriptScope.DebugInfo

What a compiler tells about a contract: its source documents and its methods, each with an address
range, declared slots, and the sequence points that tie addresses to source ranges.
-/

namespace ScriptScope

structure Declaration where
  name : String
  typeName : String
deriving DecidableEq, Repr

/-- A place in a source document, counted from one. -/
structure SourcePosition where
  line : Nat
  column : Nat
deriving DecidableEq, Repr

/-- The source range that begins at an instruction address. -/
structure SequencePoint where
  address : Nat
  /-- Place of the document in the list of documents. -/
  document : Nat
  start : SourcePosition
  stop : SourcePosition
deriving DecidableEq, Repr

structure Method where
  id : String
  /-- The namespace or contract class of the method, empty when there is none. -/
  owner : String
  name : String
  start : Nat
  stop : Nat
  /-- Declared parameters, in the order of their slots. -/
  parameters : List Declaration
  /-- Declared locals, in the order of their slots behind the parameters. -/
  «variables» : List Declaration
  returnType : Option String
  sequencePoints : List SequencePoint
  scriptHash : ScriptHash
deriving DecidableEq, Repr

namespace Method

/-- The name with the owner in front. -/
def qualifiedName (m : Method) : String :=
  if m.owner = "" then m.name else m.owner ++ "." ++ m.name

/-- Whether an address lies in the range of the method, both ends included. -/
def contains (m : Method) (address : Nat) : Bool :=
  m.start ≤ address && address ≤ m.stop

/-- All slots: the parameters, then the locals. -/
def slots (m : Method) : List Declaration :=
  m.parameters ++ m.variables

end Method

structure DebugInfo where
  scriptHash : ScriptHash
  /-- Name of the method that is called first. -/
  entrypoint : String
  documents : List String
  methods : List Method
deriving DecidableEq, Repr

namespace DebugInfo

/-- The same information under another script hash. -/
def withScriptHash (info : DebugInfo) (hash : ScriptHash) : DebugInfo :=
  { info with
    scriptHash := hash
    methods := info.methods.map fun m => { m with scriptHash := hash } }

def document? (info : DebugInfo) (point : SequencePoint) : Option String :=
  info.documents[point.document]?

end DebugInfo
end ScriptScope

import ScriptScope.DebugInfo.Location
import ScriptScope.Listing.Line
import ScriptScope.Variable.Session

/-!
# ScriptScope.Frame

The frame at the top of a suspended machine.

The method of a frame is looked up once, when the debugger attaches to it; the instruction pointer,
the script and the stacks are read anew each time from the context of the machine.

* `Frame.evaluate`: what a path selects, without a handle.
* `select`: walks indices into nested arrays and structs, and stops at the first step that fails.
-/

namespace ScriptScope

/-- The state of a machine that a frame shows. -/
structure Context where
  scriptHash : ScriptHash
  /-- Address of the next instruction. -/
  ip : Nat
  script : Bytes
  /-- The evaluation stack, its bottom first. -/
  evaluationStack : List Item
  /-- The alt stack, its bottom first. Compiled methods keep their locals at its top. -/
  altStack : List Item

def evaluationStackName : String := "evalStack"

def altStackName : String := "altStack"

/-- The element at an index of an array or a struct. -/
def indexInto (heap : Heap) (item : Item) (index : Nat) : Except EvalError Item :=
  match item.elements? with
  | none => .error (.notIndexable item.typeName)
  | some r =>
    match (heap.items r)[index]? with
    | none => .error (.indexOutOfRange index (heap.items r).length)
    | some found => .ok found

/-- The item that indices lead to from an item. -/
def select (heap : Heap) (item : Item) (indices : List Nat) : Except EvalError Item :=
  indices.foldlM (indexInto heap) item

structure Frame where
  info : Option DebugInfo
  /-- The method of the frame, if exactly one contains the instruction pointer. -/
  method : Option Method
  showsStorage : Bool
  showsAltStack : Bool

namespace Frame

/-- Looks up the method of a frame; where several methods claim the address there is none. -/
def methodAt (context : Context) (info : DebugInfo) : Option Method :=
  match Method.resolve info.methods context.scriptHash context.ip with
  | .ok found => found
  | .error _ => none

/-- Attaches to the frame of a context. -/
def attach (context : Context) (info : Option DebugInfo) (showsStorage showsAltStack : Bool) :
    Frame where
  info := info
  method := info.bind (methodAt context)
  showsStorage := showsStorage
  showsAltStack := showsAltStack

/-- Where the next instruction comes from; the sequence point is that of the address now. -/
def sourceLocation (frame : Frame) (context : Context) : Option SourceLocation :=
  frame.method.map fun m =>
    let point := SequencePoint.active? m.sequencePoints context.ip
    ⟨m, point, point.bind fun p => frame.info.bind (DebugInfo.document? · p)⟩

/-- The name of the method, or the script hash and the address. -/
def name (frame : Frame) (context : Context) : String :=
  match frame.method with
  | some m => m.qualifiedName
  | none => context.scriptHash.text ++ " @ " ++ toString context.ip

/-- The locals: the array or struct at the top of the alt stack. -/
def locals (context : Context) : Option ArrayRef :=
  context.altStack.getLast?.bind Item.elements?

def slots (frame : Frame) : List Declaration :=
  (frame.method.map Method.slots).getD []

def localsContainer (frame : Frame) (context : Context) : Container :=
  ⟨.frame (locals context) frame.slots, "Locals", none⟩

/-- The items of a stack, its top first. -/
def stackItems? (context : Context) (stack : String) : Option (List Item) :=
  if stack = evaluationStackName then some context.evaluationStack.reverse
  else if stack = altStackName then some context.altStack.reverse
  else none

/-- The container of a copied stack. -/
def stackSnapshot (items : List Item) (name path : String) : Container :=
  ⟨.sequence (.snapshot items) false, name, some path⟩

def stackContainer? (context : Context) (stack : String) : Option Container :=
  (stackItems? context stack).map fun items =>
    stackSnapshot items stack (EvaluatePath.stack stack []).text

def storageContainer? (frame : Frame) (context : Context) : Option Container :=
  if frame.showsStorage then some ⟨.storage context.scriptHash, EvaluatePath.storageRoot, none⟩
  else none

/-- The containers at the top of the tree: locals, evaluation stack, alt stack, storage. -/
def scopes (frame : Frame) (context : Context) : List Container :=
  frame.localsContainer context :: (stackContainer? context evaluationStackName).toList ++
    (if frame.showsAltStack then (stackContainer? context altStackName).toList else []) ++
    (frame.storageContainer? context).toList

/-- The locals one by one. -/
def localVariables (frame : Frame) (context : Context) (memory : Memory)
    (presentation : Presentation) : List Child :=
  (frame.localsContainer context).children memory presentation

/-- The first storage entry of the contract whose key has a hash. -/
def storageEntry (frame : Frame) (context : Context) (memory : Memory) (keyHash : UInt32) :
    Except EvalError StorageEntry :=
  if frame.showsStorage then
    match (memory.storage context.scriptHash).find? fun entry => entry.keyHash = keyHash with
    | some entry => .ok entry
    | none => .error (.unknownStorageKey keyHash)
  else .error .noStorage

/-- The local in the first slot declared under a name. -/
def localNamed (frame : Frame) (context : Context) (heap : Heap) (name : String) : Option Item := do
  let position ← frame.slots.findIdx? fun d => d.name = name
  let r ← locals context
  (heap.items r)[position]?

/-- What a path selects. -/
def evaluate (frame : Frame) (context : Context) (memory : Memory) (presentation : Presentation)
    (path : EvaluatePath) : Except EvalError Child :=
  let text := path.text
  match path with
  | .stack stack indices =>
    match stackItems? context stack with
    | none => .error (.unknownStack stack)
    | some items =>
      match indices with
      | [] => .ok (.node (stackSnapshot items text text))
      | first :: rest =>
        match items[first]? with
        | none => .error (.indexOutOfRange first items.length)
        | some item =>
          (select memory.heap item rest).map (.ofItem memory.heap text (some text))
  | .slot name indices =>
    match frame.localNamed context memory.heap name with
    | none => .error (.unknownVariable name)
    | some item => (select memory.heap item indices).map (.ofItem memory.heap text (some text))
  | .storageEntry keyHash =>
    (frame.storageEntry context memory keyHash).map fun entry =>
      .node ⟨.storageEntry entry, text, some text⟩
  | .storage keyHash half =>
    (frame.storageEntry context memory keyHash).map fun entry =>
      let content := match half with
        | .key => entry.key
        | .value => entry.value
      .node ⟨.bytes content presentation.hashStorageBuffers, text, some text⟩

/-- What a text selects, read as a path. -/
def evaluateText (frame : Frame) (context : Context) (memory : Memory)
    (presentation : Presentation) (text : String) : Except EvalError Child :=
  match EvaluatePath.parse text with
  | .error fault => .error (.malformed text fault)
  | .ok path => frame.evaluate context memory presentation path

/-- Selects and shows a value; a failure leaves the session as it is. -/
def evaluateIn (frame : Frame) (context : Context) (memory : Memory) (session : Session)
    (text : String) : Except EvalError (Stub × Session) :=
  (frame.evaluateText context memory session.presentation text).map (session.present memory)

def scopesIn (frame : Frame) (context : Context) (memory : Memory) (session : Session) :
    List Stub × Session :=
  session.presentAll memory ((frame.scopes context).map .node)

def variablesIn (frame : Frame) (context : Context) (memory : Memory) (session : Session) :
    List Stub × Session :=
  session.presentAll memory (frame.localVariables context memory session.presentation)

def currentLine (context : Context) (names : SyscallNames) : Except DecodeError Line :=
  (Instruction.decode context.script context.ip).map (Line.ofInstruction names)

end Frame
end ScriptScope

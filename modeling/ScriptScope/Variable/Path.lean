import ScriptScope.Text.Blank
import ScriptScope.Text.Hex

/-!
# ScriptScope.Variable.Path

The paths that select a value of a suspended frame.

* `$<stack>[<i>]…` selects a slot of a stack and walks into it; index 0 is the top, and a bare
  `$<stack>` is the whole stack.
* `<name>[<i>]…` selects a declared slot of the frame and walks into it.
* `$storage[<hash>]` selects a storage entry by the hash of its key, `.key` and `.value` one half
  of it.

A name may hold any character but blanks and brackets, and does not begin with a dollar sign.
-/

namespace ScriptScope

/-- One half of a storage entry. -/
inductive StorageField where
  | key
  | value
deriving DecidableEq, Repr

def StorageField.name : StorageField → String
  | .key => "key"
  | .value => "value"

inductive EvaluatePath where
  /-- A stack, then the slot counted from its top, then indices into nested items. -/
  | stack (name : String) (indices : List Nat)
  /-- A declared slot, then indices into nested items. -/
  | slot (name : String) (indices : List Nat)
  /-- The storage entry whose key has this hash. -/
  | storageEntry (keyHash : UInt32)
  /-- One half of the storage entry whose key has this hash. -/
  | storage (keyHash : UInt32) (half : StorageField)
deriving DecidableEq, Repr

/-- What a text lacks to be a path. -/
inductive PathFault where
  | unterminatedKey
  | keyHash
  | field
  | identifier
  | index
deriving DecidableEq, Repr

/-- What was expected. -/
def PathFault.reason : PathFault → String
  | .unterminatedKey => "unterminated storage key"
  | .keyHash => "storage key must be a hex content hash"
  | .field => "expected `.key` or `.value`"
  | .identifier => "expected an identifier"
  | .index => "expected `[<index>]`"

namespace EvaluatePath

/-- The name that stands for the storage of the contract. -/
def storageRoot : String := "storage"

/-- The beginning of every path into the storage. -/
def storageMark : List Char :=
  '$' :: storageRoot.toList ++ ['[']

/-- An index between brackets. -/
def indexChars (i : Nat) : List Char :=
  '[' :: Decimal.digits i ++ [']']

/-- A hash between brackets behind the name of the storage. -/
def storageChars (keyHash : UInt32) : List Char :=
  storageMark ++ Hex.word keyHash ++ [']']

/-- The text of a path, as characters. -/
def chars : EvaluatePath → List Char
  | .stack name indices => '$' :: name.toList ++ indices.flatMap indexChars
  | .slot name indices => name.toList ++ indices.flatMap indexChars
  | .storageEntry keyHash => storageChars keyHash
  | .storage keyHash half => storageChars keyHash ++ '.' :: half.name.toList

def text (path : EvaluatePath) : String :=
  String.ofList path.chars

/-- Whether a name can stand at the head of a path. -/
def isEvaluable (name : List Char) : Bool :=
  name ≠ [] && name.head? ≠ some '$' && !name.any fun c => Text.isBlank c || c = '[' || c = ']'

/-- The hash that one to eight digits write. -/
def readHash? (cs : List Char) : Option UInt32 :=
  if 1 ≤ cs.length ∧ cs.length ≤ 8 then (Hex.value? cs).map UInt32.ofNat else none

/-- A row of indices between brackets. -/
def readIndices? (cs : List Char) : Option (List Nat) :=
  match cs with
  | [] => some []
  | '[' :: rest =>
    match _found : Text.splitFirst ']' rest with
    | none => none
    | some (index, more) =>
      (Decimal.readDigits Decimal.limit64 index).bind fun i =>
        (readIndices? more).map (i :: ·)
  | _ => none
termination_by cs.length
decreasing_by
  obtain ⟨rfl, _⟩ := Text.splitFirst_eq_some_iff.1 _found
  simp
  omega

/-- What stands behind the mark of the storage. -/
def readStorage (rest : List Char) : Except PathFault EvaluatePath :=
  match Text.splitFirst ']' rest with
  | none => .error .unterminatedKey
  | some (hash, half) =>
    match readHash? hash with
    | none => .error .keyHash
    | some keyHash =>
      if half = [] then .ok (.storageEntry keyHash)
      else if half = '.' :: StorageField.key.name.toList then .ok (.storage keyHash .key)
      else if half = '.' :: StorageField.value.name.toList then .ok (.storage keyHash .value)
      else .error .field

/-- A name and the indices behind it. -/
def readIndexed (body : List Char) : Except PathFault (String × List Nat) :=
  let name := body.takeWhile (· ≠ '[')
  if isEvaluable name then
    match readIndices? (body.dropWhile (· ≠ '[')) with
    | none => .error .index
    | some indices => .ok (String.ofList name, indices)
  else .error .identifier

/-- The path that a text without blanks at its ends writes. -/
def readTrimmed (text : List Char) : Except PathFault EvaluatePath :=
  match storageMark.isPrefixOf? text with
  | some rest => readStorage rest
  | none =>
    match text with
    | '$' :: body => (readIndexed body).map fun (name, indices) => .stack name indices
    | body => (readIndexed body).map fun (name, indices) => .slot name indices

def parse (text : String) : Except PathFault EvaluatePath :=
  readTrimmed (Text.trim text.toList)

end EvaluatePath

/-- Why a path selects nothing. -/
inductive EvalError where
  | malformed (input : String) (fault : PathFault)
  | unknownStack (name : String)
  | unknownVariable (name : String)
  | indexOutOfRange (index length : Nat)
  | notIndexable (typeName : String)
  | unknownStorageKey (keyHash : UInt32)
  | noStorage
deriving DecidableEq, Repr

def EvalError.message : EvalError → String
  | .malformed input fault => "invalid evaluate path `" ++ input ++ "`: " ++ fault.reason
  | .unknownStack name => "unknown stack `$" ++ name ++ "`"
  | .unknownVariable name => "unknown variable `" ++ name ++ "`"
  | .indexOutOfRange index length =>
    "index " ++ toString index ++ " is out of range for " ++ toString length ++ " items"
  | .notIndexable typeName => typeName ++ " values cannot be indexed"
  | .unknownStorageKey keyHash =>
    "no storage entry with key hash " ++ String.ofList (Hex.word keyHash)
  | .noStorage => "storage is not available in this frame"

end ScriptScope

import ScriptScope.Opcode

/-!
# ScriptScope.Instruction

Instructions and their encoding in a script.

A script is read from the front: `readOperand` takes what belongs to one opcode off the bytes
behind it, `decode` does so at any position, and `listFrom` repeats it to the end of the script or
to the first instruction that is cut off. Nothing is ever filled in: an instruction whose bytes
run out is a fault that says how many bytes there should have been.

* `length_encode`: the size of an instruction is the length of its encoding.
* `readOperand_ok`: an instruction that is read ends inside the bytes it is read from.
* `Cursor.toList_eq`: reading step by step gives the list.
-/

namespace ScriptScope

/-- An instruction at its place in a script. -/
structure Instruction where
  /-- Address of the opcode byte. -/
  position : Nat
  opcode : Opcode
  /-- The operand without its length. -/
  operand : Bytes
deriving DecidableEq, Repr

/-- Why no instruction can be read. -/
inductive DecodeError where
  /-- Fewer bytes than the opcode calls for; both counts are of bytes behind the opcode. -/
  | truncated (position : Nat) (opcode : Opcode) (needed available : Nat)
  /-- The position is not inside the script. -/
  | outOfRange (position length : Nat)
deriving DecidableEq, Repr

def DecodeError.message : DecodeError → String
  | .truncated position opcode needed available =>
    "instruction " ++ opcode.name ++ " at " ++ toString position ++ " is truncated: needs " ++
      toString needed ++ " bytes, " ++ toString available ++ " available"
  | .outOfRange position length =>
    "position " ++ toString position ++ " is outside of the script (" ++ toString length ++
      " bytes)"

namespace Instruction

/-- Bytes of the whole instruction: opcode, length, operand. -/
def size (i : Instruction) : Nat :=
  1 + i.opcode.prefixWidth + i.operand.length

/-- Address of the instruction behind this one. -/
def next (i : Instruction) : Nat :=
  i.position + i.size

def encode (i : Instruction) : Bytes :=
  i.opcode.value ::
    (Bytes.toLittleEndian i.opcode.prefixWidth i.operand.length ++ i.operand)

@[simp] theorem length_encode (i : Instruction) : i.encode.length = i.size := by
  simp [encode, size]
  omega

theorem size_pos (i : Instruction) : 0 < i.size := by
  unfold size
  omega

theorem position_lt_next (i : Instruction) : i.position < i.next :=
  Nat.lt_add_of_pos_right i.size_pos

/-- Reads the operand of an opcode at `position` from the bytes behind it. -/
def readOperand (position : Nat) (opcode : Opcode) (rest : Bytes) :
    Except DecodeError Instruction :=
  let length := rest.take opcode.prefixWidth
  if length.length < opcode.prefixWidth then
    .error (.truncated position opcode opcode.prefixWidth rest.length)
  else
    let width := opcode.operandWidth length
    let operand := (rest.drop opcode.prefixWidth).take width
    if operand.length < width then
      .error (.truncated position opcode (opcode.prefixWidth + width) rest.length)
    else .ok ⟨position, opcode, operand⟩

def decode (script : Bytes) (position : Nat) : Except DecodeError Instruction :=
  match script.drop position with
  | [] => .error (.outOfRange position script.length)
  | b :: rest => readOperand position ⟨b⟩ rest

theorem readOperand_ok {position : Nat} {opcode : Opcode} {rest : Bytes} {i : Instruction}
    (h : readOperand position opcode rest = .ok i) :
    i.position = position ∧ i.opcode = opcode ∧ i.size ≤ rest.length + 1 := by
  simp only [readOperand] at h
  split at h
  · cases h
  · split at h
    · cases h
    · cases h
      refine ⟨rfl, rfl, ?_⟩
      simp_all [size]
      omega

/-- The instructions of the bytes that stand at `position`, ending with the fault if the last one
is cut off. -/
def listFrom (position : Nat) : Bytes → List (Except DecodeError Instruction)
  | [] => []
  | b :: rest =>
    match readOperand position ⟨b⟩ rest with
    | .error e => [.error e]
    | .ok i => .ok i :: listFrom i.next (rest.drop (i.size - 1))
termination_by bs => bs.length
decreasing_by simp only [List.length_drop, List.length_cons]; omega

def list (script : Bytes) : List (Except DecodeError Instruction) :=
  listFrom 0 script

/-- The instructions among the items of a reading. -/
def decoded (items : List (Except DecodeError Instruction)) : List Instruction :=
  items.filterMap Except.toOption

/-- The fault among the items of a reading. -/
def fault? (items : List (Except DecodeError Instruction)) : Option DecodeError :=
  items.findSome? fun
    | .ok _ => none
    | .error e => some e

section Items

variable (i : Instruction) (e : DecodeError) (items more : List (Except DecodeError Instruction))

@[simp] theorem decoded_nil : decoded [] = [] := rfl

@[simp] theorem decoded_ok_cons : decoded (.ok i :: items) = i :: decoded items := rfl

@[simp] theorem decoded_error_cons : decoded (.error e :: items) = decoded items := rfl

@[simp] theorem decoded_append : decoded (items ++ more) = decoded items ++ decoded more :=
  List.filterMap_append

@[simp] theorem fault?_nil : fault? [] = none := rfl

@[simp] theorem fault?_ok_cons : fault? (.ok i :: items) = fault? items := rfl

@[simp] theorem fault?_error_cons : fault? (.error e :: items) = some e := rfl

@[simp] theorem fault?_append : fault? (items ++ more) = (fault? items).or (fault? more) :=
  List.findSome?_append

end Items

end Instruction

/-- A place in a script that is being read instruction by instruction. -/
structure Cursor where
  /-- Address of the next opcode. -/
  position : Nat
  /-- The bytes from there on. -/
  rest : Bytes
  /-- Whether a fault has been met. -/
  halted : Bool
deriving DecidableEq, Repr

namespace Cursor

/-- The place before the first instruction. -/
def start (script : Bytes) : Cursor :=
  ⟨0, script, false⟩

/-- The next instruction, or the fault in its place, and the place behind it. A fault is met once;
behind it there is nothing. -/
def next? (c : Cursor) : Option (Except DecodeError Instruction × Cursor) :=
  match c.halted, c.rest with
  | true, _ => none
  | false, [] => none
  | false, b :: rest =>
    match Instruction.readOperand c.position ⟨b⟩ rest with
    | .error e => some (.error e, { c with halted := true })
    | .ok i => some (.ok i, ⟨i.next, rest.drop (i.size - 1), false⟩)

/-- Everything that is still to come. -/
def toList (c : Cursor) : List (Except DecodeError Instruction) :=
  if c.halted then [] else Instruction.listFrom c.position c.rest

theorem toList_start (script : Bytes) : (start script).toList = Instruction.list script := rfl

theorem toList_eq (c : Cursor) :
    c.toList = match c.next? with
      | none => []
      | some (item, c') => item :: c'.toList := by
  obtain ⟨position, rest, halted⟩ := c
  cases halted
  · cases rest with
    | nil => simp [toList, next?, Instruction.listFrom]
    | cons b rest =>
      simp only [toList, next?]
      rw [Instruction.listFrom]
      cases Instruction.readOperand position ⟨b⟩ rest <;> simp
  · simp [toList, next?]

end Cursor
end ScriptScope

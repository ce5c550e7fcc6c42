import ScriptScope.Text.Hex

/-!
# ScriptScope.Opcode

The instruction set: mnemonics, operand layouts, and what an operand stands for.

An opcode is a byte. Values 1 to 75 push as many bytes as the value says and have no mnemonic of
their own; of the others some are assigned (`mnemonics`) and the rest are not.
-/

namespace ScriptScope

/-- How the operand is laid out behind the opcode byte. -/
inductive OperandLayout where
  /-- Exactly so many bytes. -/
  | fixed (width : Nat)
  /-- As many bytes as the value of the opcode. -/
  | inline
  /-- A little-endian length of so many bytes, then that many bytes. -/
  | prefixed (width : Nat)
deriving DecidableEq, Repr

/-- What the operand of an opcode stands for. -/
inductive OperandRole where
  /-- The opcode has two readings, zero and false. -/
  | zeroOrFalse
  /-- The opcode has two readings, one and true. -/
  | oneOrTrue
  /-- A byte string that is pushed. -/
  | literal
  /-- A signed offset from the opcode. -/
  | branch
  /-- The hash of a contract. -/
  | contract
  /-- Two counts and a signed offset from the byte behind them. -/
  | countedBranch
  /-- Two counts and the hash of a contract. -/
  | countedContract
  /-- Two counts. -/
  | counts
  /-- A system call, by hash or by name. -/
  | systemCall
  | nothing
deriving DecidableEq, Repr

/-- An opcode byte, assigned or not. -/
structure Opcode where
  value : UInt8
deriving DecidableEq, Repr

namespace Opcode

/-- The opcodes with a mnemonic. -/
def mnemonics : List (UInt8 × String) :=
  [(0x00, "PUSH0"), (0x4C, "PUSHDATA1"), (0x4D, "PUSHDATA2"), (0x4E, "PUSHDATA4"),
   (0x4F, "PUSHM1"), (0x51, "PUSH1"), (0x52, "PUSH2"), (0x53, "PUSH3"), (0x54, "PUSH4"),
   (0x55, "PUSH5"), (0x56, "PUSH6"), (0x57, "PUSH7"), (0x58, "PUSH8"), (0x59, "PUSH9"),
   (0x5A, "PUSH10"), (0x5B, "PUSH11"), (0x5C, "PUSH12"), (0x5D, "PUSH13"), (0x5E, "PUSH14"),
   (0x5F, "PUSH15"), (0x60, "PUSH16"), (0x61, "NOP"), (0x62, "JMP"), (0x63, "JMPIF"),
   (0x64, "JMPIFNOT"), (0x65, "CALL"), (0x66, "RET"), (0x67, "APPCALL"), (0x68, "SYSCALL"),
   (0x69, "TAILCALL"), (0x6A, "DUPFROMALTSTACK"), (0x6B, "TOALTSTACK"), (0x6C, "FROMALTSTACK"),
   (0x6D, "XDROP"), (0x72, "XSWAP"), (0x73, "XTUCK"), (0x74, "DEPTH"), (0x75, "DROP"),
   (0x76, "DUP"), (0x77, "NIP"), (0x78, "OVER"), (0x79, "PICK"), (0x7A, "ROLL"), (0x7B, "ROT"),
   (0x7C, "SWAP"), (0x7D, "TUCK"), (0x7E, "CAT"), (0x7F, "SUBSTR"), (0x80, "LEFT"),
   (0x81, "RIGHT"), (0x82, "SIZE"), (0x83, "INVERT"), (0x84, "AND"), (0x85, "OR"), (0x86, "XOR"),
   (0x87, "EQUAL"), (0x8B, "INC"), (0x8C, "DEC"), (0x8D, "SIGN"), (0x8F, "NEGATE"), (0x90, "ABS"),
   (0x91, "NOT"), (0x92, "NZ"), (0x93, "ADD"), (0x94, "SUB"), (0x95, "MUL"), (0x96, "DIV"),
   (0x97, "MOD"), (0x98, "SHL"), (0x99, "SHR"), (0x9A, "BOOLAND"), (0x9B, "BOOLOR"),
   (0x9C, "NUMEQUAL"), (0x9E, "NUMNOTEQUAL"), (0x9F, "LT"), (0xA0, "GT"), (0xA1, "LTE"),
   (0xA2, "GTE"), (0xA3, "MIN"), (0xA4, "MAX"), (0xA5, "WITHIN"), (0xA7, "SHA1"), (0xA8, "SHA256"),
   (0xA9, "HASH160"), (0xAA, "HASH256"), (0xAC, "CHECKSIG"), (0xAD, "VERIFY"),
   (0xAE, "CHECKMULTISIG"), (0xC0, "ARRAYSIZE"), (0xC1, "PACK"), (0xC2, "UNPACK"),
   (0xC3, "PICKITEM"), (0xC4, "SETITEM"), (0xC5, "NEWARRAY"), (0xC6, "NEWSTRUCT"),
   (0xC7, "NEWMAP"), (0xC8, "APPEND"), (0xC9, "REVERSE"), (0xCA, "REMOVE"), (0xCB, "HASKEY"),
   (0xCC, "KEYS"), (0xCD, "VALUES"), (0xE0, "CALL_I"), (0xE1, "CALL_E"), (0xE2, "CALL_ED"),
   (0xE3, "CALL_ET"), (0xE4, "CALL_EDT"), (0xF0, "THROW"), (0xF1, "THROWIFNOT")]

def mnemonic? (op : Opcode) : Option String :=
  mnemonics.lookup op.value

/-- Whether the opcode pushes as many bytes as its value says. -/
def isPushBytes (op : Opcode) : Bool :=
  0x01 ≤ op.value && op.value ≤ 0x4B

/-- Whether the opcode pushes a byte string. -/
def isPushData (op : Opcode) : Bool :=
  op.isPushBytes || (0x4C ≤ op.value && op.value ≤ 0x4E)

/-- Whether the value is part of the instruction set. -/
def isValid (op : Opcode) : Bool :=
  op.isPushBytes || op.mnemonic?.isSome

def name (op : Opcode) : String :=
  match op.mnemonic? with
  | some text => text
  | none =>
    if op.isPushBytes then String.ofList ("PUSHBYTES".toList ++ Decimal.digits op.value.toNat)
    else String.ofList ("UNKNOWN(0x".toList ++ Hex.byte op.value ++ [')'])

def layout (op : Opcode) : OperandLayout :=
  let v := op.value
  if op.isPushBytes then .inline
  else if v = 0x4C then .prefixed 1
  else if v = 0x4D then .prefixed 2
  else if v = 0x4E then .prefixed 4
  else if 0x62 ≤ v ∧ v ≤ 0x65 then .fixed 2
  else if v = 0x67 ∨ v = 0x69 then .fixed 20
  else if v = 0x68 then .prefixed 1
  else if v = 0xE0 then .fixed 4
  else if v = 0xE1 ∨ v = 0xE3 then .fixed 22
  else if v = 0xE2 ∨ v = 0xE4 then .fixed 2
  else .fixed 0

def role (op : Opcode) : OperandRole :=
  let v := op.value
  if v = 0x00 then .zeroOrFalse
  else if v = 0x51 then .oneOrTrue
  else if op.isPushData then .literal
  else if 0x62 ≤ v ∧ v ≤ 0x65 then .branch
  else if v = 0x67 ∨ v = 0x69 then .contract
  else if v = 0x68 then .systemCall
  else if v = 0xE0 then .countedBranch
  else if v = 0xE1 ∨ v = 0xE3 then .countedContract
  else if v = 0xE2 ∨ v = 0xE4 then .counts
  else .nothing

/-- Bytes of the length in front of the operand. -/
def prefixWidth (op : Opcode) : Nat :=
  match op.layout with
  | .prefixed width => width
  | _ => 0

/-- Bytes of the operand, given the bytes of the length in front of it. -/
def operandWidth (op : Opcode) (length : Bytes) : Nat :=
  match op.layout with
  | .fixed width => width
  | .inline => op.value.toNat
  | .prefixed _ => Bytes.ofLittleEndian length

/-- Whether an operand of so many bytes can follow the opcode. -/
def Admits (op : Opcode) (length : Nat) : Prop :=
  match op.layout with
  | .fixed width => length = width
  | .inline => length = op.value.toNat
  | .prefixed width => length < Bytes.capacity width

instance (op : Opcode) (length : Nat) : Decidable (op.Admits length) := by
  unfold Admits
  split <;> infer_instance

end Opcode
end ScriptScope

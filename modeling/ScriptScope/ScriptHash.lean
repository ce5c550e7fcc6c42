import ScriptScope.Text.Hex

/-!
# ScriptScope.ScriptHash

The identity of a contract: twenty bytes, least significant first as they stand in a script. The
text form shows them in the opposite order behind `0x`.

* `parse`: one lower-case `0x` may stand in front of what `Hex.decode` reads, which may itself drop
  a marker.
-/

namespace ScriptScope

/-- The hash of a contract's script. -/
structure ScriptHash where
  /-- The bytes in the order of the script. -/
  bytes : Bytes
  length_eq : bytes.length = 20
deriving DecidableEq, Repr

namespace ScriptHash

instance : Inhabited ScriptHash := ⟨⟨List.replicate 20 0, by simp⟩⟩

def zero : ScriptHash := default

/-- The hash of these bytes, if there are twenty. -/
def ofBytes? (bs : Bytes) : Option ScriptHash :=
  if h : bs.length = 20 then some ⟨bs, h⟩ else none

def chars (h : ScriptHash) : List Char :=
  Hex.marked h.bytes.reverse

def text (h : ScriptHash) : String :=
  String.ofList h.chars

/-- Why a text is no script hash. -/
inductive Fault where
  | invalidHex (fault : Hex.Fault)
  | invalidLength (length : Nat)
deriving DecidableEq, Repr

def Fault.message : Fault → String
  | .invalidHex fault => "invalid script hash hex: " ++ fault.message
  | .invalidLength length => "script hash must be 20 bytes, got " ++ toString length

/-- What is left of a text without a leading `0x`. -/
def dropMarker : Bytes → Bytes
  | 0x30 :: 0x78 :: rest => rest
  | bs => bs

def parse (text : String) : Except Fault ScriptHash :=
  match Hex.decodeBytes (dropMarker (Utf8.encode text)) with
  | .error fault => .error (.invalidHex fault)
  | .ok bs =>
    if h : bs.length = 20 then .ok ⟨bs.reverse, by simp [h]⟩
    else .error (.invalidLength bs.length)

/-- The order of the bytes as they stand in a script, the first one leading. -/
def order (a b : ScriptHash) : Ordering :=
  compare a.bytes b.bytes

end ScriptHash
end ScriptScope

import ScriptScope.Digest.Keccak
import ScriptScope.OrderedMap
import ScriptScope.ScriptHash

/-!
# ScriptScope.Storage

Contract storage: entries, the short hash that labels a key, and a store in memory.

* `contentHash`: the first four bytes of the Keccak-256 digest, most significant first. It is a
  label only; two keys may share one.
* `Storage.contract_put`, `Storage.contract_clear`: putting an entry inserts it into the map of its
  contract, and clearing empties that map; the other contracts are left alone.
-/

namespace ScriptScope

/-- The short hash of a byte string. -/
def contentHash (bs : Bytes) : UInt32 :=
  Bytes.bigWord ((Keccak.digest bs).take 4)

structure StorageEntry where
  key : Bytes
  value : Bytes
  /-- Whether the entry was written as read-only. -/
  isConstant : Bool
deriving DecidableEq, Repr

def StorageEntry.keyHash (entry : StorageEntry) : UInt32 :=
  contentHash entry.key

/-- A way to see the entries of every contract, in the order of the store. -/
abbrev StorageView := ScriptHash → List StorageEntry

/-- What a store holds under a key. -/
structure StoredValue where
  value : Bytes
  isConstant : Bool
deriving DecidableEq, Repr

structure Storage where
  contracts : OrderedMap ScriptHash (OrderedMap Bytes StoredValue)

namespace Storage

def empty : Storage := ⟨.empty⟩

/-- What a contract holds, by key. -/
def contract (s : Storage) (hash : ScriptHash) : OrderedMap Bytes StoredValue :=
  (s.contracts.find? hash).getD .empty

/-- The entries of a contract, in the order in which their keys were first put. -/
def entries (s : Storage) : StorageView := fun hash =>
  (s.contract hash).entries.map fun (key, stored) => ⟨key, stored.value, stored.isConstant⟩

/-- Puts an entry under a contract. -/
def put (s : Storage) (hash : ScriptHash) (entry : StorageEntry) : Storage :=
  ⟨s.contracts.insert hash
    ((s.contract hash).insert entry.key ⟨entry.value, entry.isConstant⟩)⟩

def clear (s : Storage) (hash : ScriptHash) : Storage :=
  ⟨s.contracts.erase hash⟩

theorem contract_put (s : Storage) (hash other : ScriptHash) (entry : StorageEntry) :
    (s.put hash entry).contract other =
      if other = hash then
        (s.contract hash).insert entry.key ⟨entry.value, entry.isConstant⟩
      else s.contract other := by
  simp only [contract, put, OrderedMap.find?_insert]
  split <;> rfl

theorem contract_clear (s : Storage) (hash other : ScriptHash) :
    (s.clear hash).contract other = if other = hash then .empty else s.contract other := by
  simp only [contract, clear, OrderedMap.find?_erase]
  split <;> rfl

theorem entries_put_of_ne {hash other : ScriptHash} (h : other ≠ hash) (s : Storage)
    (entry : StorageEntry) : (s.put hash entry).entries other = s.entries other := by
  simp only [entries, contract_put, if_neg h]

theorem entries_clear_of_ne {hash other : ScriptHash} (h : other ≠ hash) (s : Storage) :
    (s.clear hash).entries other = s.entries other := by
  simp only [entries, contract_clear, if_neg h]

end Storage
end ScriptScope

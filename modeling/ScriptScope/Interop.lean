import ScriptScope.Digest.Sha256
import ScriptScope.Text.Utf8

/-!
# ScriptScope.Interop

Names of the services that a system call can name by hash.

The hash of a name is the first four bytes of its SHA-256 digest, least significant first. A table
holds the hash of each of its names; of two names with one hash the later is the one found.

* `resolve_ofNames`: what a table answers, said by its names alone.
-/

namespace ScriptScope

/-- A way to name a system call from its hash. -/
abbrev SyscallNames := UInt32 → Option String

namespace Interop

/-- The hash that a system call carries for a name. -/
def hash (name : String) : UInt32 :=
  Bytes.littleWord ((Sha256.digest (Utf8.encode name)).take 4)

def noNames : SyscallNames := fun _ => none

/-- Names by hash, the last listed first. -/
structure Table where
  entries : List (UInt32 × String)

def Table.ofNames (names : List String) : Table :=
  ⟨names.reverse.map fun name => (hash name, name)⟩

def Table.resolve (table : Table) : SyscallNames :=
  fun h => table.entries.lookup h

/-- In a table made from names, the first entry under a hash is the first name with it. -/
theorem lookup_map_eq_find? (key : String → UInt32) (names : List String) (h : UInt32) :
    (names.map fun name => (key name, name)).lookup h = names.find? fun name => h == key name := by
  induction names with
  | nil => rfl
  | cons name rest ih => simp only [List.map_cons, List.lookup_cons, List.find?_cons, ih]

theorem resolve_ofNames (names : List String) (h : UInt32) :
    (Table.ofNames names).resolve h = names.reverse.find? fun name => h == hash name :=
  lookup_map_eq_find? hash names.reverse h

/-- The services of the runtime. -/
def knownNames : List String :=
  ["System.ExecutionEngine.GetScriptContainer",
   "System.ExecutionEngine.GetExecutingScriptHash",
   "System.ExecutionEngine.GetCallingScriptHash",
   "System.ExecutionEngine.GetEntryScriptHash",
   "System.Runtime.Platform",
   "System.Runtime.GetTrigger",
   "System.Runtime.CheckWitness",
   "System.Runtime.Notify",
   "System.Runtime.Log",
   "System.Runtime.GetTime",
   "System.Runtime.Serialize",
   "System.Runtime.Deserialize",
   "System.Blockchain.GetHeight",
   "System.Blockchain.GetHeader",
   "System.Blockchain.GetBlock",
   "System.Blockchain.GetTransaction",
   "System.Blockchain.GetTransactionHeight",
   "System.Blockchain.GetContract",
   "System.Header.GetIndex",
   "System.Header.GetHash",
   "System.Header.GetPrevHash",
   "System.Header.GetTimestamp",
   "System.Block.GetTransactionCount",
   "System.Block.GetTransactions",
   "System.Block.GetTransaction",
   "System.Transaction.GetHash",
   "System.Contract.Destroy",
   "System.Contract.GetStorageContext",
   "System.Storage.GetContext",
   "System.Storage.GetReadOnlyContext",
   "System.Storage.Get",
   "System.Storage.Put",
   "System.Storage.PutEx",
   "System.Storage.Delete",
   "System.StorageContext.AsReadOnly",
   "Neo.Runtime.GetTrigger",
   "Neo.Runtime.CheckWitness",
   "Neo.Runtime.Notify",
   "Neo.Runtime.Log",
   "Neo.Runtime.GetTime",
   "Neo.Runtime.Serialize",
   "Neo.Runtime.Deserialize",
   "Neo.Blockchain.GetHeight",
   "Neo.Blockchain.GetHeader",
   "Neo.Blockchain.GetBlock",
   "Neo.Blockchain.GetTransaction",
   "Neo.Blockchain.GetAccount",
   "Neo.Blockchain.GetValidators",
   "Neo.Blockchain.GetAsset",
   "Neo.Blockchain.GetContract",
   "Neo.Header.GetHash",
   "Neo.Header.GetVersion",
   "Neo.Header.GetPrevHash",
   "Neo.Header.GetMerkleRoot",
   "Neo.Header.GetTimestamp",
   "Neo.Header.GetIndex",
   "Neo.Header.GetConsensusData",
   "Neo.Header.GetNextConsensus",
   "Neo.Block.GetTransactionCount",
   "Neo.Block.GetTransactions",
   "Neo.Block.GetTransaction",
   "Neo.Transaction.GetHash",
   "Neo.Transaction.GetType",
   "Neo.Transaction.GetAttributes",
   "Neo.Transaction.GetInputs",
   "Neo.Transaction.GetOutputs",
   "Neo.Transaction.GetReferences",
   "Neo.Transaction.GetUnspentCoins",
   "Neo.Transaction.GetWitnesses",
   "Neo.Account.GetScriptHash",
   "Neo.Account.GetVotes",
   "Neo.Account.GetBalance",
   "Neo.Account.IsStandard",
   "Neo.Asset.GetAssetId",
   "Neo.Asset.GetAssetType",
   "Neo.Asset.GetAmount",
   "Neo.Asset.GetAvailable",
   "Neo.Asset.GetPrecision",
   "Neo.Asset.GetOwner",
   "Neo.Asset.GetAdmin",
   "Neo.Asset.GetIssuer",
   "Neo.Contract.Create",
   "Neo.Contract.Migrate",
   "Neo.Contract.Destroy",
   "Neo.Contract.GetScript",
   "Neo.Contract.IsPayable",
   "Neo.Contract.GetStorageContext",
   "Neo.Storage.GetContext",
   "Neo.Storage.GetReadOnlyContext",
   "Neo.Storage.Get",
   "Neo.Storage.Put",
   "Neo.Storage.Delete",
   "Neo.Storage.Find",
   "Neo.StorageContext.AsReadOnly",
   "Neo.Enumerator.Create",
   "Neo.Enumerator.Next",
   "Neo.Enumerator.Value",
   "Neo.Enumerator.Concat",
   "Neo.Iterator.Create",
   "Neo.Iterator.Key",
   "Neo.Iterator.Keys",
   "Neo.Iterator.Values",
   "Neo.Iterator.Concat"]

def builtin : Table :=
  Table.ofNames knownNames

end Interop
end ScriptScope

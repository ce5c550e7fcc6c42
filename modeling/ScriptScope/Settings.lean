import ScriptScope.Json.Record
import ScriptScope.Listing.Line

/-!
# ScriptScope.Settings

How listings and variables are presented.
-/

namespace ScriptScope

structure Settings where
  /-- Least width of the address column of a listing. -/
  addressWidth : Nat := Line.defaultWidth
  /-- Whether the buffers of a storage entry show their short hash. -/
  hashStorageBuffers : Bool := true
  /-- How many bytes of a buffer have a child of their own; zero for all of them. -/
  maxByteChildren : Nat := 0
  /-- Whether the alt stack is shown beside the locals. -/
  showAltStack : Bool := true
deriving DecidableEq, Repr

namespace Settings

open Json

/-- How many bytes of a buffer have a child of their own, if there is a limit. -/
def byteLimit (s : Settings) : Option Nat :=
  if 0 < s.maxByteChildren then some s.maxByteChildren else none

/-- Whether the numbers fit their sixty-four bits. -/
def Fits (s : Settings) : Prop :=
  s.addressWidth < Decimal.limit64 ∧ s.maxByteChildren < Decimal.limit64

def toJson (s : Settings) : Json :=
  .ofFields [("address_width", .ofNat s.addressWidth),
    ("hash_storage_buffers", .ofBool s.hashStorageBuffers),
    ("max_byte_children", .ofNat s.maxByteChildren), ("show_alt_stack", .ofBool s.showAltStack)]

def jsonRules : List FieldRule :=
  [⟨"address_width", .anywhere⟩, ⟨"hash_storage_buffers", .anywhere⟩,
   ⟨"max_byte_children", .anywhere⟩, ⟨"show_alt_stack", .anywhere⟩]

def ofJson? (j : Json) : Option Settings :=
  match fields? jsonRules j with
  | some [addressWidth, hashStorageBuffers, maxByteChildren, showAltStack] => do
    let defaults : Settings := {}
    return {
      addressWidth := ← orElse defaults.addressWidth (nat? Decimal.limit64) addressWidth
      hashStorageBuffers := ← orElse defaults.hashStorageBuffers bool? hashStorageBuffers
      maxByteChildren := ← orElse defaults.maxByteChildren (nat? Decimal.limit64) maxByteChildren
      showAltStack := ← orElse defaults.showAltStack bool? showAltStack }
  | _ => none

end Settings
end ScriptScope

/-!
# ScriptScope.Toml

Values and tables of a TOML document, and how its lines build the tables.

A table comes into being in one of three ways, and each limits what later lines may add to it:
under a header of its own (`declared`), on the way to a deeper header (`passed`), or by a dotted
key (`dotted`). A header may be given once. A dotted key adds only to what dotted keys made, but its
way there may lead through tables passed by a header and through the last of the tables under a
repeated header. Inline tables and arrays are values and take no additions at all.

* `adjust`: changes what is under one key and keeps the order of the others.
-/

namespace ScriptScope
namespace Toml

/-- A key with dots: the keys on the way, and the last one. -/
structure KeyPath where
  parents : List String
  last : String
deriving DecidableEq, Repr

inductive Value where
  | bool (value : Bool)
  | integer (value : Int)
  /-- A number with a fraction or an exponent, or a special one. -/
  | float (isRepresentable : Bool)
  | text (value : String)
  /-- A date, a time, or both. -/
  | moment
  | array (items : List Value)
  | inline (pairs : List (KeyPath × Value))
deriving Repr

/-- How a table came into being. -/
inductive TableKind where
  | declared
  | passed
  | dotted
deriving DecidableEq, Repr

/-- What is under a key. -/
inductive Node where
  | leaf (value : Value)
  | table (kind : TableKind) (entries : List (String × Node))
  /-- Tables under a repeated header; only the last of them is open to additions. -/
  | tables (before : List (List (String × Node))) (last : List (String × Node))

/-- Keys with what is under them, in order. -/
abbrev Entries := List (String × Node)

/-- A line of a document that is not blank. -/
inductive Statement where
  | pair (key : KeyPath) (value : Value)
  | header (key : KeyPath)
  | repeatedHeader (key : KeyPath)
deriving Repr

namespace Entries

/-- Changes what is under a key; a new key goes to the end. -/
def adjust (key : String) (f : Option Node → Option Node) : Entries → Option Entries
  | [] => (f none).map fun node => [(key, node)]
  | (other, node) :: rest =>
    if other = key then (f (some node)).map fun node => (other, node) :: rest
    else (adjust key f rest).map ((other, node) :: ·)

def find? (entries : Entries) (key : String) : Option Node :=
  (List.find? (fun entry => entry.1 = key) entries).map Prod.snd

/-- Adds a pair; the key must be new. The table that takes the pair must be made by a dotted key;
the tables on the way to it may also be passed by a header, or be the last under a repeated one. -/
def insert (last : String) (value : Value) : List String → Entries → Option Entries
  | [], entries => adjust last (fun
      | none => some (.leaf value)
      | some _ => none) entries
  | key :: parents, entries => adjust key (fun
      | none => (insert last value parents []).map (.table .dotted)
      | some (.table .dotted inner) => (insert last value parents inner).map (.table .dotted)
      | some (.table .passed inner) =>
        if parents = [] then none else (insert last value parents inner).map (.table .passed)
      | some (.tables before inner) =>
        if parents = [] then none else (insert last value parents inner).map (.tables before)
      | some _ => none) entries

/-- Adds a pair to the table that a header opened. -/
def insertUnder (key : KeyPath) (value : Value) : List String → Entries → Option Entries
  | [], entries => insert key.last value key.parents entries
  | name :: header, entries => adjust name (fun
      | some (.table kind inner) => (insertUnder key value header inner).map (.table kind)
      | some (.tables before last) => (insertUnder key value header last).map (.tables before)
      | _ => none) entries

/-- Goes the way to a header and changes what is under its last key. -/
def open? (last : String) (f : Option Node → Option Node) : List String → Entries → Option Entries
  | [], entries => adjust last f entries
  | name :: parents, entries => adjust name (fun
      | none => (open? last f parents []).map (.table .passed)
      | some (.table kind inner) => (open? last f parents inner).map (.table kind)
      | some (.tables before inner) => (open? last f parents inner).map (.tables before)
      | some (.leaf _) => none) entries

/-- Opens a table under a header of its own. -/
def declare : Option Node → Option Node
  | none => some (.table .declared [])
  | some (.table .passed inner) => some (.table .declared inner)
  | some _ => none

/-- Opens one more table under a repeated header. -/
def append : Option Node → Option Node
  | none => some (.tables [] [])
  | some (.tables before last) => some (.tables (before ++ [last]) [])
  | some _ => none

end Entries

namespace Value

/-- The least integer that is read. -/
def minInteger : Int := -Int.ofNat (Nat.pow 2 127)

/-- Exclusive limit of the integers that are read. -/
def maxInteger : Int := Int.ofNat (Nat.pow 2 128)

mutual

/-- Whether every number in a value can be represented and every inline table has its keys once. -/
def isSound : Value → Bool
  | .integer n => minInteger ≤ n && n < maxInteger
  | .float isRepresentable => isRepresentable
  | .array items => areSound items
  | .inline pairs => pairsAreSound pairs []
  | _ => true

def areSound : List Value → Bool
  | [] => true
  | value :: rest => isSound value && areSound rest

/-- Whether all values are sound and their keys go together. -/
def pairsAreSound : List (KeyPath × Value) → Entries → Bool
  | [], _ => true
  | (key, value) :: rest, entries =>
    isSound value &&
      match Entries.insert key.last value key.parents entries with
      | none => false
      | some entries => pairsAreSound rest entries

end

end Value

/-- A document that is being built: its tables so far, and the header above the next pair. -/
structure Builder where
  root : Entries
  header : List String

namespace Builder

/-- Takes a line. -/
def step (b : Builder) (s : Statement) : Option Builder :=
  match s with
  | .pair key value =>
    if value.isSound then
      (Entries.insertUnder key value b.header b.root).map fun root => { b with root := root }
    else none
  | .header key =>
    (Entries.open? key.last Entries.declare key.parents b.root).map fun root =>
      ⟨root, key.parents ++ [key.last]⟩
  | .repeatedHeader key =>
    (Entries.open? key.last Entries.append key.parents b.root).map fun root =>
      ⟨root, key.parents ++ [key.last]⟩

def run (b : Builder) (statements : List Statement) : Option Builder :=
  statements.foldlM step b

end Builder

/-- The tables that the lines of a document build. -/
def build (statements : List Statement) : Option Entries :=
  (Builder.run ⟨[], []⟩ statements).map Builder.root

end Toml
end ScriptScope

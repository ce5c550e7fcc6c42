import ScriptScope.Json.Record

/-!
# ScriptScope.Variable.Stub

What a client sees of a variable before it expands it. A stub is exchanged under the names that
debug clients expect; the counts and the path are left out when there are none.
-/

namespace ScriptScope

/-- A variable as it is shown. -/
structure Stub where
  /-- The name to show; empty for the entries of a map. -/
  name : String
  typeLabel : String
  /-- A preview of the value. -/
  value : String
  /-- The handle to expand; zero when there is nothing below. -/
  handle : Int
  /-- How many children have an index. -/
  indexedCount : Option Nat
  /-- How many children have a name. -/
  namedCount : Option Nat
  /-- The path that selects the value again. -/
  evaluatePath : Option String
deriving DecidableEq, Repr

namespace Stub

open Json

def leaf (name typeLabel value : String) (path : Option String) : Stub :=
  ⟨name, typeLabel, value, 0, none, none, path⟩

/-- Whether there is nothing below. -/
def isLeaf (s : Stub) : Bool :=
  s.handle = 0

/-- Whether the numbers fit their sixty-four bits. -/
def Fits (s : Stub) : Prop :=
  Int64.minValue.toInt ≤ s.handle ∧ s.handle ≤ Int64.maxValue.toInt ∧
    (∀ n ∈ s.indexedCount, n < Decimal.limit64) ∧ ∀ n ∈ s.namedCount, n < Decimal.limit64

/-- A field that is left out when there is nothing in it. -/
def optionField (name : String) (f : α → Json) : Option α → List (String × Json)
  | none => []
  | some a => [(name, f a)]

def toJson (s : Stub) : Json :=
  .ofFields ([("name", .ofText s.name), ("type", .ofText s.typeLabel), ("value", .ofText s.value),
    ("variablesReference", .ofInt s.handle)] ++
    optionField "indexedVariables" .ofNat s.indexedCount ++
    optionField "namedVariables" .ofNat s.namedCount ++
    optionField "evaluateName" .ofText s.evaluatePath)

def jsonRules : List FieldRule :=
  [⟨"name", .nowhere⟩, ⟨"type", .nowhere⟩, ⟨"value", .nowhere⟩, ⟨"variablesReference", .nowhere⟩,
   ⟨"indexedVariables", .anywhere⟩, ⟨"namedVariables", .anywhere⟩, ⟨"evaluateName", .anywhere⟩]

def ofJson? (j : Json) : Option Stub :=
  match fields? jsonRules j with
  | some [name, typeLabel, value, handle, indexed, named, path] => do
    return {
      name := ← required text? name
      typeLabel := ← required text? typeLabel
      value := ← required text? value
      handle := ← required word? handle
      indexedCount := ← orElse none (option? (nat? Decimal.limit64)) indexed
      namedCount := ← orElse none (option? (nat? Decimal.limit64)) named
      evaluatePath := ← orElse none (option? text?) path }
  | _ => none

end Stub
end ScriptScope

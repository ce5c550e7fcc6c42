import ScriptScope.Json.Reader
import ScriptScope.Json.Writer

/-!
# ScriptScope.Json.Record

Records with named fields in JSON.

A record is an object with the fields by name, in any order and among unknown ones, or an array with
the fields in the order of their rules. A field that comes twice is refused, and so is an array with
too many items.

* `Absence` says where a field may be missing.
-/

namespace ScriptScope
namespace Json

/-- Where a field may be missing. -/
inductive Absence where
  | nowhere
  /-- From an object, but not from an array. -/
  | inObject
  | anywhere
deriving DecidableEq, Repr

/-- A field of a record. -/
structure FieldRule where
  name : String
  absence : Absence
deriving DecidableEq, Repr

/-- The field of an object: there may be one, or none where the rule allows it. -/
def member? (members : List (Option String × Json)) (rule : FieldRule) : Option (Option Json) :=
  match members.filter fun m => m.1 = some rule.name with
  | [] => if rule.absence = .nowhere then none else some none
  | [(_, value)] => some (some value)
  | _ => none

/-- The fields of an array, in the order of the rules. -/
def items? : List FieldRule → List Json → Option (List (Option Json))
  | [], [] => some []
  | [], _ :: _ => none
  | rule :: rules, [] =>
    if rule.absence = .anywhere then (items? rules []).map (none :: ·) else none
  | _ :: rules, item :: items => (items? rules items).map (some item :: ·)

/-- The fields of a record, in the order of the rules. -/
def fields? (rules : List FieldRule) : Json → Option (List (Option Json))
  | .object members =>
    if members.all (·.1.isSome) then rules.mapM (member? members) else none
  | .array items => items? rules items
  | .scalar _ => none

/-- What a field holds, or a default where it is missing. -/
def orElse (default : α) (f : Json → Option α) : Option Json → Option α
  | none => some default
  | some j => f j

/-- What a field holds that must be there. -/
def required (f : Json → Option α) : Option Json → Option α
  | none => none
  | some j => f j

end Json
end ScriptScope

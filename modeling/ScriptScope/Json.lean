/-!
# ScriptScope.Json

JSON values as a document spells them: objects keep the order of their members and every
repetition of a key.

A string literal may escape half of a surrogate pair. Such a literal denotes no text; it is kept as
`none`, since a document may hold one wherever nobody reads it. A number with a fraction or an
exponent, and the number `-0`, is kept as it is spelled: it is no integer.
-/

namespace ScriptScope

/-- A value without parts. -/
inductive Json.Scalar where
  | null
  | bool (value : Bool)
  | integer (value : Int)
  | real (literal : String)
  | text (value : Option String)
deriving DecidableEq, Repr

inductive Json where
  | scalar (value : Json.Scalar)
  | array (items : List Json)
  | object (members : List (Option String × Json))
deriving Repr

namespace Json

def null : Json := .scalar .null

def ofBool (b : Bool) : Json := .scalar (.bool b)

def ofInt (n : Int) : Json := .scalar (.integer n)

def ofNat (n : Nat) : Json := ofInt n

def ofText (s : String) : Json := .scalar (.text (some s))

def ofList (f : α → Json) (xs : List α) : Json := .array (xs.map f)

/-- The value of an option, or `null`. -/
def ofOption (f : α → Json) : Option α → Json
  | none => null
  | some a => f a

/-- An object with these members. -/
def ofFields (fields : List (String × Json)) : Json :=
  .object (fields.map fun (name, value) => (some name, value))

/-- The text of a string literal that denotes one. -/
def text? : Json → Option String
  | .scalar (.text value) => value
  | _ => none

def bool? : Json → Option Bool
  | .scalar (.bool value) => some value
  | _ => none

def int? : Json → Option Int
  | .scalar (.integer value) => some value
  | _ => none

/-- A natural number below the limit. -/
def nat? (limit : Nat) (j : Json) : Option Nat :=
  j.int?.bind fun n => if 0 ≤ n ∧ n < limit then some n.toNat else none

/-- An integer that fits sixty-four bits with a sign. -/
def word? (j : Json) : Option Int :=
  j.int?.filter fun n => Int64.minValue.toInt ≤ n && n ≤ Int64.maxValue.toInt

/-- The items of an array, each read in the same way. -/
def list? (f : Json → Option α) : Json → Option (List α)
  | .array items => items.mapM f
  | _ => none

/-- Nothing for `null`, and otherwise what is read. -/
def option? (f : Json → Option α) : Json → Option (Option α)
  | .scalar .null => some none
  | j => (f j).map some

@[simp] theorem text?_ofText (s : String) : (ofText s).text? = some s := rfl

@[simp] theorem bool?_ofBool (b : Bool) : (ofBool b).bool? = some b := rfl

@[simp] theorem int?_ofInt (n : Int) : (ofInt n).int? = some n := rfl

theorem nat?_ofNat {limit n : Nat} (h : n < limit) : (ofNat n).nat? limit = some n := by
  simp [ofNat, nat?]
  omega

theorem list?_ofList {f : α → Json} {g : Json → Option α} (xs : List α)
    (h : ∀ x ∈ xs, g (f x) = some x) : (ofList f xs).list? g = some xs := by
  simp only [ofList, list?]
  induction xs with
  | nil => rfl
  | cons x xs ih =>
    simp [h x (by simp), ih fun y hy => h y (by simp [hy])]

end Json
end ScriptScope

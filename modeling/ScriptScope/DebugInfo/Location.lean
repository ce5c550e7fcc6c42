import ScriptScope.DebugInfo

/-!
# ScriptScope.DebugInfo.Location

From an instruction address to the method that contains it and the source range active there.

* `activeBy`: an exact address wins; an address before the first point belongs to the first; any
  other belongs to the point below it, as long as a point follows at or above it.
* `Method.resolve`: a method is named only if its range is the only one that contains the address.
-/

namespace ScriptScope

/-- The element active at an address, of elements in ascending order of their addresses. -/
def activeBy (address : α → Nat) (xs : List α) (ip : Nat) : Option α :=
  match xs.find? fun x => address x = ip with
  | some x => some x
  | none =>
    match xs with
    | [] => none
    | first :: rest =>
      if ip ≤ address first then some first
      else ((xs.zip rest).find? fun (a, b) => address a < ip && ip ≤ address b).map Prod.fst

def SequencePoint.active? (points : List SequencePoint) (ip : Nat) : Option SequencePoint :=
  activeBy SequencePoint.address points ip

/-- An address that several methods of a script claim. -/
structure Ambiguity where
  scriptHash : ScriptHash
  address : Nat
  /-- The methods that claim it, in the order in which they are listed. -/
  candidates : List String
deriving DecidableEq, Repr

def Ambiguity.message (a : Ambiguity) : String :=
  "address " ++ toString a.address ++ " of " ++ a.scriptHash.text ++ " lies in several methods: " ++
    String.intercalate ", " a.candidates

/-- The only method of a script whose range contains an address. -/
def Method.resolve (methods : List Method) (hash : ScriptHash) (ip : Nat) :
    Except Ambiguity (Option Method) :=
  match methods.filter fun m => m.scriptHash = hash && m.contains ip with
  | [] => .ok none
  | [m] => .ok (some m)
  | several => .error ⟨hash, ip, several.map Method.id⟩

/-- Where an instruction comes from. -/
structure SourceLocation where
  method : Method
  /-- The active sequence point, if the method has one at the address. -/
  point : Option SequencePoint
  /-- The document of the sequence point. -/
  document : Option String
deriving DecidableEq, Repr

namespace DebugInfo

def locateIn (info : DebugInfo) (m : Method) (ip : Nat) : SourceLocation :=
  let point := SequencePoint.active? m.sequencePoints ip
  ⟨m, point, point.bind info.document?⟩

/-- The method of the contract that contains an address. -/
def methodAt (info : DebugInfo) (ip : Nat) : Except Ambiguity (Option Method) :=
  Method.resolve info.methods info.scriptHash ip

def locate (info : DebugInfo) (ip : Nat) : Except Ambiguity (Option SourceLocation) :=
  (info.methodAt ip).map fun m => m.map fun m => info.locateIn m ip

end DebugInfo
end ScriptScope

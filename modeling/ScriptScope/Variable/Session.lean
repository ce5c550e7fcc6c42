import ScriptScope.Settings
import ScriptScope.Variable.Container

/-!
# ScriptScope.Variable.Session

The handles of one suspension.

A session hands out the numbers 1, 2, 3, … in order. Clearing it releases every handle but does not
start over: a number is never given twice. So the live handles are always the ones behind the
released ones, and a session needs no more than their containers in order.

* `get?_eq_some_iff`: which handles are live.
* `register_handle`: a registration takes the next number.
-/

namespace ScriptScope

/-- A handle that was never given or is no longer live. -/
structure UnknownHandle where
  handle : Int
deriving DecidableEq, Repr

def UnknownHandle.message (e : UnknownHandle) : String :=
  "unknown variable reference " ++ String.ofList (Decimal.signed e.handle)

/-- The live handles and how to present what is behind them. -/
structure Session where
  presentation : Presentation
  /-- How many handles have been released. -/
  released : Nat
  /-- What is behind the live handles, in the order in which they were given. -/
  live : Array Container

namespace Session

def start (settings : Settings) : Session where
  presentation := ⟨settings.hashStorageBuffers, settings.byteLimit⟩
  released := 0
  live := #[]

/-- The handle of the next registration. -/
def nextHandle (s : Session) : Nat :=
  s.released + s.live.size + 1

/-- The container behind a handle. -/
def get? (s : Session) (handle : Int) : Option Container :=
  if (s.released : Int) < handle then s.live[(handle - s.released - 1).toNat]? else none

/-- Whether a handle is live. -/
def contains (s : Session) (handle : Int) : Bool :=
  (s.get? handle).isSome

def size (s : Session) : Nat :=
  s.live.size

/-- Releases every handle. -/
def clear (s : Session) : Session :=
  { s with released := s.released + s.live.size, live := #[] }

/-- Gives a container a handle. -/
def register (memory : Memory) (c : Container) (s : Session) : Stub × Session :=
  (c.stub memory s.presentation.byteLimit s.nextHandle, { s with live := s.live.push c })

/-- Shows a child; a container gets a handle. -/
def present (memory : Memory) (child : Child) (s : Session) : Stub × Session :=
  match child with
  | .leaf name typeLabel value path => (.leaf name typeLabel value path, s)
  | .node c => s.register memory c

/-- Shows children one after the other. -/
def presentAll (memory : Memory) : List Child → Session → List Stub × Session
  | [], s => ([], s)
  | child :: rest, s =>
    let (stub, s) := s.present memory child
    let (stubs, s) := presentAll memory rest s
    (stub :: stubs, s)

def presentItem (memory : Memory) (name : String) (path : Option String) (item : Item)
    (s : Session) : Stub × Session :=
  s.present memory (.ofItem memory.heap name path item)

/-- Shows what is below the container behind a handle. -/
def expand (memory : Memory) (handle : Int) (s : Session) :
    Except UnknownHandle (List Stub × Session) :=
  match s.get? handle with
  | none => .error ⟨handle⟩
  | some c => .ok (s.presentAll memory (c.children memory s.presentation))

theorem get?_eq_some_iff {s : Session} {handle : Int} {c : Container} :
    s.get? handle = some c ↔
      ∃ i, s.live[i]? = some c ∧ handle = (s.released + i + 1 : Nat) := by
  unfold get?
  constructor
  · intro h
    split at h
    · exact ⟨_, h, by omega⟩
    · cases h
  · rintro ⟨i, hc, rfl⟩
    rw [if_pos (by omega)]
    have : (((s.released + i + 1 : Nat) : Int) - s.released - 1).toNat = i := by omega
    rw [this, hc]

theorem contains_iff {s : Session} {handle : Int} :
    s.contains handle = true ↔ (s.released : Int) < handle ∧ handle < s.nextHandle := by
  simp only [contains, get?, nextHandle]
  split
  · next h =>
    rw [Option.isSome_iff_ne_none, ne_eq, Array.getElem?_eq_none_iff]
    omega
  · next h => simp [h]

theorem register_handle (memory : Memory) (c : Container) (s : Session) :
    (s.register memory c).1.handle = s.nextHandle := rfl

theorem nextHandle_register (memory : Memory) (c : Container) (s : Session) :
    (s.register memory c).2.nextHandle = s.nextHandle + 1 := by
  simp [register, nextHandle]
  omega

theorem nextHandle_clear (s : Session) : s.clear.nextHandle = s.nextHandle := by
  simp [clear, nextHandle]

theorem contains_clear (s : Session) (handle : Int) : s.clear.contains handle = false := by
  simp [contains, get?, clear]

end Session
end ScriptScope

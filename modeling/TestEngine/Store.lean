import TestEngine.Action
import TestEngine.Value

/-!
Values kept with a node under a namespace and a key. A lookup that finds nothing goes on at the node
above; writing always concerns the node's own store. Resources put into a store are closed with it.
-/

namespace TestEngine

/-- A value together with the name of the type it is stored as. -/
structure Stored where
  typeName : String
  value : Value
  deriving Inhabited

namespace Store

/-- The parts of a namespace, and the key within it. The namespace without parts is everyone's. -/
structure Key where
  scope : List String
  name : String
  deriving DecidableEq, Repr, Inhabited

end Store

structure Store (σ ν : Type) where
  values : List (Store.Key × Stored) := []
  /-- What closes each resource, oldest first, with the key it was put under. -/
  resources : List (Store.Key × Action σ ν Unit) := []

namespace Store
variable {σ ν : Type}

def write (key : Key) (v : Stored) : List (Key × Stored) → List (Key × Stored)
  | [] => [(key, v)]
  | (k, old) :: rest => if k = key then (key, v) :: rest else (k, old) :: write key v rest

def lookup (key : Key) : List (Store σ ν) → Option Stored
  | [] => none
  | s :: above =>
    match s.values.lookup key with
    | some v => some v
    | none => lookup key above

def put (s : Store σ ν) (key : Key) (v : Stored) : Store σ ν :=
  { s with values := write key v s.values }

/-- A resource stays to be closed when its key is overwritten. -/
def putResource (s : Store σ ν) (key : Key) (v : Stored) (close : Action σ ν Unit) : Store σ ν :=
  { values := write key v s.values, resources := s.resources ++ [(key, close)] }

/-- Gives up the value, and every resource that was put under its key. -/
def remove (s : Store σ ν) (key : Key) : Store σ ν :=
  { values := s.values.filter (·.1 ≠ key), resources := s.resources.filter (·.1 ≠ key) }

/-- What closing does: every resource is closed, newest first. -/
def release (s : Store σ ν) : Action σ ν Unit := .all (s.resources.reverse.map (·.2))

/-- The store after it has been closed. Its values stay. -/
def close (s : Store σ ν) : Store σ ν := { s with resources := [] }

def wrongType (key : Key) (typeName : String) : TestError :=
  .configuration ("Object stored under key [" ++ key.name ++ "] is not of required type ["
    ++ typeName ++ "]")

/-- What can be asked of a store for one key. -/
inductive Request (σ ν : Type) where
  | get (typeName : String)
  | put (v : Stored)
  | putResource (v : Stored) (close : Action σ ν Unit)
  | remove
  | getOrCompute (typeName : String) (compute : Action σ ν Value)

def typed (key : Key) (typeName : String) : Option Stored → Except Fault (Option Stored)
  | none => .ok none
  | some v => if v.typeName = typeName then .ok (some v) else .error (.error (wrongType key typeName))

/-- Answers a request to `s` below the stores `above`, and gives the store after it. Putting and
removing answer the value that was in `s`. -/
def perform (above : List (Store σ ν)) (s : Store σ ν) (key : Key) :
    Request σ ν → Action σ ν (Option Stored × Store σ ν)
  | .get typeName => fun u => ((typed key typeName (lookup key (s :: above))).map (·, s), [], u)
  | .put v => .pure (s.values.lookup key, s.put key v)
  | .putResource v close => .pure (some v, s.putResource key v close)
  | .remove => .pure (s.values.lookup key, s.remove key)
  | .getOrCompute typeName compute =>
    match lookup key (s :: above) with
    | some v => fun u => ((typed key typeName (some v)).map (·, s), [], u)
    | none => compute.bind fun value => .pure (some ⟨typeName, value⟩, s.put key ⟨typeName, value⟩)

end Store

end TestEngine

import TestEngine.Event
import TestEngine.Registry

/-!
The trace of a run: the events it reported, the notes user code left, and marks for the steps the
engine took, all in one order.
-/

namespace TestEngine

/-- A step of a node: the engine calls user code, takes several such steps together, or checks
something itself. -/
inductive Step where
  | registration
  | conditions
  | condition (extension : String)
  | check
  | instantiation
  /-- Constructing the instance with this number of a class, within an enclosing one. -/
  | construction (className : String) (inst : Nat) (within : Option Nat)
  | postProcess (extension : String) (inst : Nat)
  | preDestroy (extension : String) (inst : Nat)
  /-- A callback before or after something. -/
  | callback (capability : Capability) (extension : String)
  /-- A hook of a class, on an instance unless it is static. -/
  | hook (capability : Capability) (className method : String) (inst : Option Nat)
  | body (method : String) (inst : Option Nat)
  | dynamicBody
  | resolver (extension : String) (parameter : String)
  | supports (extension : String)
  | provide (extension : String)
  | draw
  | closeStream
  | closeStore
  | watcher (extension : String)
  deriving DecidableEq, Repr, Inhabited

inductive Phase where
  | began
  | ended (fault : Option Fault)
  /-- The run goes no further within the step. -/
  | cut
  deriving DecidableEq, Inhabited

/-- One entry of a trace. Steps and locks are those of the node with the identifier. -/
inductive Entry (ν : Type) where
  | event (e : Event)
  | note (n : ν)
  | step (id : UniqueId) (s : Step) (phase : Phase)
  /-- Exclusive resources are taken, in this order. -/
  | locked (id : UniqueId) (names : List String)
  | unlocked (id : UniqueId)

namespace Entry
variable {ν : Type}

def event? : Entry ν → Option Event
  | .event e => some e
  | _ => none

end Entry

def eventsOf {ν : Type} (trace : List (Entry ν)) : List Event := trace.filterMap Entry.event?

end TestEngine

import TestEngine.Program

/-!
Code written as scripts leaves notes of what it saw, and counts in a state of its own. These are the
single moves that scripts are made of.
-/

namespace TestEngine

namespace Script

inductive Note where
  | line (text : String)
  | testInfo (info : TestInfo)
  /-- How a store answered an operation on a key. -/
  | stored (operation key : String) (reply : Option Stored)
  | context (view : View)
  | parameter (key : String) (value : Option String)
  | exception (e : Option TestError)
  /-- The innermost instance of a class, if there is one: whether it is abandoned. -/
  | found (className : String) (abandoned : Option Bool)
  | extensions (capability : Capability) (registry : RegistryView)
  | verdict (v : Verdict)
  /-- How a part of a script ended whose errors do not end the whole. -/
  | attempted (outcome : Except TestError Unit)

/-- Counts by key. What is not listed counts zero. -/
abbrev Tally (κ : Type) : Type := List (κ × Int)

namespace Tally
variable {κ : Type} [BEq κ]

def count (t : Tally κ) (key : κ) : Int := (t.lookup key).getD 0

def add (key : κ) (n : Int) : Tally κ → Tally κ
  | [] => [(key, n)]
  | (k, old) :: rest => if key == k then (k, old + n) :: rest else (k, old) :: add key n rest

end Tally

structure State where
  calls : Tally (Nat × String) := []
  made : Tally String := []
  counters : Tally String := []

/-- A part of a script: it goes on with an `α` unless there is an error. -/
abbrev Play (α : Type) : Type := ExceptT TestError (Program State Note) α

namespace Play
variable {α : Type}

def note (n : Note) : Play Unit := ExceptT.lift (.note n (.done ()))

def say (text : String) : Play Unit := note (.line text)

def view : Play View := ExceptT.lift (.look .done)

def state : Play State := ExceptT.lift (.state id .done)

def change (f : State → State) : Play Unit := ExceptT.lift (.state f fun _ => .done ())

def returned (r : Except TestError α) : Play α := ExceptT.mk (.done r)

/-- Ends as the request did that it goes on from. -/
def ended (r : Except Fault α) : Play α := ExceptT.mk (Code.ofOutcome r)

def panic (payload : PanicPayload) : Play α := ExceptT.mk (.panic payload)

def publish (node : Node) (values : Dictionary String) : Play Unit :=
  ExceptT.lift (.publish node values (.done ()))

/-- Counts a call of one of an owner's pieces of code and gives its number, counted from one. -/
def call (owner : Nat) (piece : String) : Play Int := do
  change fun s => { s with calls := s.calls.add (owner, piece) 1 }
  return (← state).calls.count (owner, piece)

def counter (label : String) : Play Int := return (← state).counters.count label

end Play

/-- Runs code apart from all nodes: it sees none, and what it asks of the engine comes to nothing. -/
def detach {α : Type} : Program State Note α → Action State Note α
  | .done a => .pure a
  | .panic p => .fault (.panic p)
  | .note n next => (Action.note n).bind fun _ => detach next
  | .state change next => (Action.state change).bind fun old => detach (next old)
  | .look next => detach (next default)
  | .publish _ _ next | .sleep _ next => detach next
  | .store _ _ _ next => detach (next (.ok none))
  | .fresh next => detach (next 0)
  | .lockInnermost next => detach (next none)
  | .resolve _ _ next => detach (next (.ok []))
  | .evaluate _ next => detach (next (.ok (.enabled "")))

def Play.detached (p : Play Unit) : Action State Note Unit :=
  (detach p.run).bind fun
    | .ok () => .pure ()
    | .error e => .fault (.error e)

end Script

end TestEngine

import TestEngine.Collector

/-!
Code that runs without a view of any node: close actions, and what drawing an element does. It
changes the user's state `σ`, leaves notes `ν`, and ends in a value or a fault.
-/

namespace TestEngine

/-- From the user's state: how the code ends, the notes it leaves, and the state after it. -/
def Action (σ ν α : Type) : Type := σ → Except Fault α × List ν × σ

namespace Action
variable {σ ν α β : Type}

def pure (value : α) : Action σ ν α := fun s => (.ok value, [], s)

/-- A fault ends the whole; the notes and the state up to it stay. -/
def bind (first : Action σ ν α) (next : α → Action σ ν β) : Action σ ν β := fun s =>
  match first s with
  | (.ok value, notes, s) =>
    let (outcome, more, s) := next value s
    (outcome, notes ++ more, s)
  | (.error fault, notes, s) => (.error fault, notes, s)

instance : Monad (Action σ ν) where
  pure := pure
  bind := bind

def fault (f : Fault) : Action σ ν α := fun s => (.error f, [], s)

def note (n : ν) : Action σ ν Unit := fun s => (.ok (), [n], s)

/-- Changes the state and gives the one before. -/
def state (change : σ → σ) : Action σ ν σ := fun s => (.ok s, [], change s)

/-- Runs every action in order, whatever the others raise, and gathers the errors. -/
def gather (c : Collector) : List (Action σ ν Unit) → Action σ ν Collector
  | [] => pure c
  | action :: rest => fun s =>
    let (outcome, notes, s) := action s
    let (all, more, s) := gather (c.record outcome) rest s
    (all, notes ++ more, s)

/-- All of the actions; the errors are raised together at the end. -/
def all (actions : List (Action σ ν Unit)) : Action σ ν Unit :=
  (gather .empty actions).bind fun c =>
    match c.primary with
    | none => pure ()
    | some e => fault (.error e)

end Action

end TestEngine

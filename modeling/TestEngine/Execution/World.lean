import TestEngine.Descriptor
import TestEngine.Glob
import TestEngine.Trace

/-!
The state of a run and the primitive operations on it. A run is on one path at a time, from the root
of the tree to the node it is at; each node on the path has a frame.
-/

namespace TestEngine

/-- An instance in a chain, with the name of the class it was constructed for. -/
structure Level where
  className : String
  inst : TestInstance
  deriving DecidableEq, Repr, Inhabited

structure Frame (σ ν : Type) where
  descriptor : Descriptor σ ν
  registry : Registry (Extension σ ν)
  lifecycle : Lifecycle
  /-- Exclusive resources held by the node or above it. -/
  held : List String := []
  store : Store σ ν := {}
  /-- The chain of instances made for this node, outermost first. -/
  instances : Option (List Level) := none
  exception : Option TestError := none

structure World (σ ν : Type) where
  frames : List (Frame σ ν) := []
  trace : Array (Entry ν) := #[]
  user : σ
  nextNumber : Nat := 0
  abandoned : List Nat := []
  inUse : List Nat := []
  /-- The time left to the body that runs, if it has a deadline. -/
  timeLeft : Option Duration := none

structure Environment (σ ν : Type) where
  configuration : Configuration
  settings : Settings
  /-- The patterns of the conditions that are not asked, each by the names it matches. -/
  deactivated : List (String → Bool)
  registry : Registry (Extension σ ν)

/-- Why a run, or the part of it that is under way, goes no further. -/
inductive Halt where
  /-- A panic that no step contains. -/
  | panicked (payload : PanicPayload)
  /-- A body slept beyond its deadline. -/
  | late
  /-- Code waits for an instance that is in use further up its own path. -/
  | blocked
  /-- A stream without an end is to be run to its end. -/
  | endless
  | nesting
  deriving DecidableEq, Inhabited

namespace World
variable {σ ν : Type}

def currentId (w : World σ ν) : UniqueId := (w.frames.head?.map (·.descriptor.id)).getD default

def mark (w : World σ ν) (s : Step) (phase : Phase) : World σ ν :=
  { w with trace := w.trace.push (.step w.currentId s phase) }

end World

def Phase.ofOutcome {α : Type} : Except Halt (Except Fault α) → Phase
  | .ok (.ok _) => .ended none
  | .ok (.error fault) => .ended (some fault)
  | .error _ => .cut

abbrev Engine (σ ν : Type) := ReaderT (Environment σ ν) (ExceptT Halt (StateM (World σ ν)))

/-- A part of a run that may end in a fault of user code. -/
abbrev Attempt (σ ν : Type) := ExceptT Fault (Engine σ ν)

namespace Engine
variable {σ ν α : Type}

def halt (h : Halt) : Engine σ ν α := throw h

def settings : Engine σ ν Settings := return (← read).settings

def append (entry : Entry ν) : Engine σ ν Unit :=
  modify fun w => { w with trace := w.trace.push entry }

def report (node : Node) (kind : EventKind) : Engine σ ν Unit := append (.event (.of node kind))

/-- Runs `code` at a node below the one the run is at. The frame is gone after it, however it ends. -/
def within (frame : Frame σ ν) (code : Engine σ ν α) : Engine σ ν α := fun env => ExceptT.mk do
  modify fun w => { w with frames := frame :: w.frames }
  let outcome ← (code env).run
  modify fun w => { w with frames := w.frames.tail }
  return outcome

/-- How code ends from which no panic escapes. -/
def contained : Except Halt Unit → Except Halt Unit
  | .error (.panicked _) => .ok ()
  | outcome => outcome

/-- Lets the run go on behind `code` if a panic ends it. -/
def contain (code : Engine σ ν Unit) : Engine σ ν Unit := fun env => ExceptT.mk do
  return contained (← (code env).run)

def frames : Engine σ ν (List (Frame σ ν)) := return (← get).frames

def top? : Engine σ ν (Option (Frame σ ν)) := return (← get).frames.head?

def modifyTop (change : Frame σ ν → Frame σ ν) : Engine σ ν Unit :=
  modify fun w =>
    match w.frames with
    | [] => w
    | f :: fs => { w with frames := change f :: fs }

def currentRegistry : Engine σ ν (Registry (Extension σ ν)) := do
  match ← top? with
  | some f => return f.registry
  | none => return (← read).registry

def extensions (capability : Capability) : Engine σ ν (List (Extension σ ν)) :=
  return ((← top?).map (·.registry.extensions capability)).getD []

def freshNumber : Engine σ ν Nat :=
  modifyGet fun w => (w.nextNumber, { w with nextNumber := w.nextNumber + 1 })

def act (action : Action σ ν α) : Engine σ ν (Except Fault α) :=
  modifyGet fun w =>
    let (outcome, notes, user) := action w.user
    (outcome, { w with user, trace := w.trace ++ (notes.map Entry.note).toArray })

/-- The chain of instances of the nearest node that has one. -/
def instances? : Engine σ ν (Option (List Level)) :=
  return (← frames).findSome? (·.instances)

def view : Engine σ ν View := do
  let w ← get
  match w.frames with
  | [] => return default
  | f :: above =>
    return {
      node := f.descriptor.node
      ancestors := above.map (·.descriptor.node)
      lifecycle := f.lifecycle
      instances := ((f :: above).findSome? (·.instances)).map fun chain =>
        chain.map fun level =>
          ⟨level.className, level.inst.content, w.abandoned.contains level.inst.number⟩
      exception := f.exception
      registry :=
        { scope := f.registry.own.scope
          localCount := f.registry.own.registrations.length
          names := fun capability => (f.registry.extensions capability).map (·.name) }
      configuration := (← read).configuration }

/-- Asks the store of the node `levelsUp`, or of the root if the path is shorter. -/
def askStore (levelsUp : Nat) (key : Store.Key) (request : Store.Request σ ν) :
    Engine σ ν (Except Fault (Option Stored)) := do
  let fs ← frames
  let level := min levelsUp (fs.length - 1)
  match fs[level]? with
  | none => return .ok none
  | some f =>
    match ← act (f.store.perform ((fs.drop (level + 1)).map (·.store)) key request) with
    | .error fault => return .error fault
    | .ok (reply, store) =>
      modify fun w => { w with frames := w.frames.modify level fun f => { f with store } }
      return .ok reply

/-- Sleeping beyond the deadline ends the body. -/
def sleep (time : Duration) : Engine σ ν Unit := do
  match (← get).timeLeft with
  | none => return ()
  | some left =>
    if left.nanoseconds < time.nanoseconds then halt .late
    else
      modify fun w => { w with timeLeft := some ⟨left.nanoseconds - time.nanoseconds⟩ }

def stillInUse : TestError :=
  .timeout "test instance is still in use by an invocation that timed out"

/-- Whether an instance can be used now. Only one that is abandoned is not waited for. -/
def available (inst : TestInstance) : Engine σ ν Bool := do
  let w ← get
  if !w.inUse.contains inst.number then return true
  else if w.abandoned.contains inst.number then return false
  else halt .blocked

/-- Runs `code` while it uses the instance. An instance whose invocation is late stays in use. -/
def occupying (inst : TestInstance) (code : Attempt σ ν α) : Attempt σ ν α := ExceptT.mk do
  if ← available inst then
    modify fun w => { w with inUse := inst.number :: w.inUse }
    let outcome ← code.run
    modify fun w => { w with inUse := w.inUse.erase inst.number }
    return outcome
  else return .error (.error stillInUse)

def abandon (inst : TestInstance) : Engine σ ν Unit :=
  modify fun w => { w with abandoned := inst.number :: w.abandoned }

/-- The content of the innermost instance, if there is one and it can be used. -/
def lockInnermost : Engine σ ν (Option InstanceContent) := do
  match (← instances?).bind List.getLast? with
  | none => return none
  | some level => return if ← available level.inst then some level.inst.content else none

/-- How code with a deadline ends: being late is an error of it, and so is a panic. -/
def timed (deadline : Duration) (label : String) : Except Halt (Except Fault α) → Except Halt (Except Fault α)
  | .error .late => .ok (.error (.error (.timeout (label ++ " timed out after " ++ deadline.render))))
  | .ok (.error fault) => .ok (.error (.error fault.toError))
  | outcome => outcome

/-- Runs `code` up to its deadline. The run goes on behind it then; what late code may still do beside
the run is not followed. -/
def before (deadline : Duration) (label : String) (code : Attempt σ ν α) : Attempt σ ν α :=
  ExceptT.mk fun env => ExceptT.mk do
    let outer := (← get).timeLeft
    modify fun w => { w with timeLeft := some deadline }
    let outcome ← (code.run env).run
    modify fun w => { w with timeLeft := outer }
    return timed deadline label outcome

/-- Marks the step that `code` takes. The end is marked however the code ends. -/
def step (s : Step) (code : Attempt σ ν α) : Attempt σ ν α :=
  ExceptT.mk fun env => ExceptT.mk do
    modify (·.mark s .began)
    let outcome ← (code.run env).run
    modify (·.mark s (.ofOutcome outcome))
    return outcome

/-- Raises what is wrong, if anything is. -/
def raising (wrong : Option TestError) : Attempt σ ν Unit :=
  match wrong with
  | none => return ()
  | some e => throw (.error e)

/-- A check the engine makes of its own, and what is wrong if it fails. -/
def check (wrong : Option TestError) : Attempt σ ν Unit := step .check (raising wrong)

end Engine

end TestEngine

import TestEngine.Registry
import TestEngine.Settings
import TestEngine.Store

/-!
User code with a view of a node: bodies, hooks, constructors and the callbacks of extensions. Such code
is a tree of requests to the engine, each followed by what to do with the reply.
-/

namespace TestEngine

/-- What a constructor makes: the name of its type, and a text that tells it from others of the type.
What the instance holds is part of the user's state. -/
structure InstanceContent where
  typeName : String
  label : String
  deriving DecidableEq, Repr, Inhabited

/-- An instance at a level of a chain, as user code sees it. -/
structure InstanceView where
  className : String
  content : InstanceContent
  /-- Whether an invocation timed out on it. -/
  abandoned : Bool
  deriving DecidableEq, Repr, Inhabited

/-- The registry of a node without the code of its extensions. -/
structure RegistryView where
  scope : Scope
  localCount : Nat
  /-- The names of the extensions with a capability, in the order they apply. -/
  names : Capability → List String

instance : Inhabited RegistryView := ⟨⟨.engine, 0, fun _ => []⟩⟩

/-- What user code sees of the node it runs for. -/
structure View where
  node : Node
  /-- The nodes above, nearest first. -/
  ancestors : List Node := []
  lifecycle : Lifecycle := .perMethod
  /-- The chain of instances available to the node, outermost first, if there is one. -/
  instances : Option (List InstanceView) := none
  /-- The first error raised while executing the node so far, as far as it is told. -/
  exception : Option TestError := none
  registry : RegistryView
  configuration : Configuration
  deriving Inhabited

namespace View

def path (v : View) : List Node := v.node :: v.ancestors

def root (v : View) : Node := v.ancestors.getLastD v.node

def testClass? (v : View) : Option String := Node.enclosingClass? v.path

def testMethod? (v : View) : Option String := Node.runningMethod? v.path

/-- The method of the template that the node is, if it is one. -/
def template? (v : View) : Option Signature :=
  match v.node.shape with
  | .template m => some m
  | _ => none

def find? (v : View) (className : String) : Option InstanceView :=
  (v.instances.getD []).reverse.find? (·.className == className)

end View

/-- Whether a node runs, and why. -/
inductive Verdict where
  | enabled (reason : String)
  | disabled (reason : String)
  deriving DecidableEq, Repr, Inhabited

namespace Verdict

def isDisabled : Verdict → Bool
  | .disabled _ => true
  | .enabled _ => false

def reason : Verdict → String
  | .disabled r | .enabled r => r

end Verdict

/-- User code over a state `σ` that leaves notes `ν` and ends in an `α` or a panic. -/
inductive Program (σ ν α : Type) where
  | done (value : α)
  | panic (payload : PanicPayload)
  | note (n : ν) (next : Program σ ν α)
  /-- Changes the user's state and goes on with the one before. -/
  | state (change : σ → σ) (next : σ → Program σ ν α)
  | look (next : View → Program σ ν α)
  /-- Publishes a report entry for a node. -/
  | publish (node : Node) (values : Dictionary String) (next : Program σ ν α)
  | sleep (time : Duration) (next : Program σ ν α)
  /-- Asks the store of the node some levels up, or of the root if there are fewer levels. -/
  | store (levelsUp : Nat) (key : Store.Key) (request : Store.Request σ ν)
      (next : Except Fault (Option Stored) → Program σ ν α)
  /-- A number given to no other object. -/
  | fresh (next : Nat → Program σ ν α)
  /-- The innermost instance, if there is one that is not in use by an invocation that timed out. -/
  | lockInnermost (next : Option InstanceContent → Program σ ν α)
  /-- The values for the parameters of an executable. -/
  | resolve (executable : String) (parameters : List Parameter)
      (next : Except Fault (List Value) → Program σ ν α)
  /-- What the conditions say about the node, those left out that the configuration deactivates. -/
  | evaluate (configuration : Configuration) (next : Except Fault Verdict → Program σ ν α)

namespace Program
variable {σ ν α β : Type}

def bind : Program σ ν α → (α → Program σ ν β) → Program σ ν β
  | .done a, f => f a
  | .panic p, _ => .panic p
  | .note n next, f => .note n (next.bind f)
  | .state change next, f => .state change fun s => (next s).bind f
  | .look next, f => .look fun v => (next v).bind f
  | .publish node values next, f => .publish node values (next.bind f)
  | .sleep time next, f => .sleep time (next.bind f)
  | .store up key request next, f => .store up key request fun r => (next r).bind f
  | .fresh next, f => .fresh fun n => (next n).bind f
  | .lockInnermost next, f => .lockInnermost fun i => (next i).bind f
  | .resolve executable ps next, f => .resolve executable ps fun r => (next r).bind f
  | .evaluate c next, f => .evaluate c fun r => (next r).bind f

instance : Monad (Program σ ν) where
  pure := done
  bind := bind

/-- Runs `cleanup` where the code would panic, and then panics. -/
def onPanic (cleanup : Program σ ν Unit) : Program σ ν α → Program σ ν α
  | .done a => .done a
  | .panic p => cleanup.bind fun _ => .panic p
  | .note n next => .note n (onPanic cleanup next)
  | .state change next => .state change fun s => onPanic cleanup (next s)
  | .look next => .look fun v => onPanic cleanup (next v)
  | .publish node values next => .publish node values (onPanic cleanup next)
  | .sleep time next => .sleep time (onPanic cleanup next)
  | .store up key request next => .store up key request fun r => onPanic cleanup (next r)
  | .fresh next => .fresh fun n => onPanic cleanup (next n)
  | .lockInnermost next => .lockInnermost fun i => onPanic cleanup (next i)
  | .resolve executable ps next => .resolve executable ps fun r => onPanic cleanup (next r)
  | .evaluate c next => .evaluate c fun r => onPanic cleanup (next r)

def notes (ns : List ν) (next : Program σ ν α) : Program σ ν α := ns.foldr note next

/-- Runs an action as part of the code and goes on with how it ends. -/
def attempt (action : Action σ ν α) : Program σ ν (Except Fault α) :=
  .state (fun s => (action s).2.2) fun s => notes (action s).2.1 (.done (action s).1)

end Program

abbrev Code (σ ν α : Type) : Type := Program σ ν (Except TestError α)

namespace Code
variable {σ ν α β : Type}

def raise (e : TestError) : Code σ ν α := .done (.error e)

def ofExcept (r : Except TestError α) : Code σ ν α := .done r

/-- A fault as user code raises it: an error is returned, a panic goes on. -/
def ofOutcome : Except Fault α → Code σ ν α
  | .ok a => .done (.ok a)
  | .error (.error e) => .done (.error e)
  | .error (.panic p) => .panic p

/-- Goes on with the value unless there is an error. -/
def andThen (code : Code σ ν α) (next : α → Code σ ν β) : Code σ ν β :=
  Program.bind code fun
    | .ok a => next a
    | .error e => .done (.error e)

end Code

end TestEngine

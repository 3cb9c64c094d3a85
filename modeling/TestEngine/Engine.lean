import TestEngine.Builtin
import TestEngine.Execution.Tree
import TestEngine.Listener

/-! Running a tree of tests. -/

namespace TestEngine
variable {σ ν : Type}

/-- How a run ended: its trace, the user's state, and why it was broken off if it was. -/
structure Run (σ ν : Type) where
  trace : List (Entry ν)
  user : σ
  halt : Option Halt

namespace Run

def events (r : Run σ ν) : List Event := eventsOf r.trace

def recording (r : Run σ ν) : Recording := ⟨r.events⟩

end Run

/-- The extensions of every run, in front of those given for it. -/
def builtinExtensions : List (Declared σ ν) :=
  [⟨.testInfoResolver, .default⟩, ⟨.testReporterResolver, .default⟩]

def rootRegistry (extensions : List (Declared σ ν)) : Except TestError (Registry (Extension σ ν)) :=
  Execution.registerAll .root (builtinExtensions ++ extensions)

def environment (c : Configuration) (registry : Registry (Extension σ ν)) : Environment σ ν :=
  { configuration := c, settings := .ofConfiguration c, deactivated := Execution.deactivatedBy Glob.library c,
    registry }

/-- Executes a tree from a first state of the user, where the runtime starts. The run does not start if
the tree is not valid or the extensions cannot be registered. -/
def execute (c : Configuration) (extensions : List (Declared σ ν)) (tree : TestTree σ ν) (user : σ) :
    Except EngineError (Run σ ν) :=
  match tree.validate with
  | .error e => .error e
  | .ok () =>
    match rootRegistry extensions with
    | .error e => .error (.extension e)
    | .ok registry =>
      let (outcome, w) := (Execution.execute tree (environment c registry)).run { user }
      .ok { trace := w.trace.toList, user := w.user
            halt := match outcome with
              | .ok () => none
              | .error h => some h }

/-- What starts the runtime for as many threads as the settings ask for. -/
abbrev Runtime := Option Nat → Except String Unit

/-- Reads the settings and starts the runtime for them. -/
def startRuntime (arithmetic : Arithmetic) (runtime : Runtime) (c : Configuration) :
    Except PanicPayload (Except EngineError Unit) :=
  match Settings.read arithmetic c with
  | .error payload => .error payload
  | .ok settings => .ok ((runtime settings.parallelism).mapError .runtime)

/-- A call of the engine, as it is built. The runtime is started behind the check of the tree, and
before extensions are registered. -/
def launch (arithmetic : Arithmetic) (runtime : Runtime) (c : Configuration)
    (extensions : List (Declared σ ν)) (tree : TestTree σ ν) (user : σ) :
    Except PanicPayload (Except EngineError (Run σ ν)) :=
  match tree.validate with
  | .error e => .ok (.error e)
  | .ok () =>
    match startRuntime arithmetic runtime c with
    | .error payload => .error payload
    | .ok (.error e) => .ok (.error e)
    | .ok (.ok ()) => .ok (execute c extensions tree user)

end TestEngine

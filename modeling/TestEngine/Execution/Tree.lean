import TestEngine.Execution.ClassNode
import TestEngine.Execution.Expansion
import TestEngine.TestTree

/-! Executing and skipping whole trees. -/

namespace TestEngine.Execution
variable {σ ν : Type}

mutual
def skip : TestTree σ ν → String → Engine σ ν Unit
  | .node d cs, reason => visitSkipped d reason (skipAll cs reason)
def skipAll : List (TestTree σ ν) → String → Engine σ ν Unit
  | [], _ => return ()
  | t :: ts, reason => do
    skip t reason
    skipAll ts reason
end

abbrev Child (σ ν : Type) := Descriptor σ ν × Engine σ ν Unit

/-- The mode a child has: its own, or else the same thread below a class with one instance for all
tests, or else the default for its kind of node. -/
def modeOf (settings : Settings) (d : Descriptor σ ν) (underPerClass : Bool) : ExecutionMode :=
  if !settings.parallel then .sameThread
  else match d.mode with
    | some mode => mode
    | none =>
      if underPerClass then .sameThread
      else if d.testClass?.isSome then settings.classesMode
      else settings.defaultMode

/-- Whether a child of the node with this frame may run beside its siblings. None may where exclusive
resources are held. -/
def isConcurrent (settings : Settings) (f : Frame σ ν) (d : Descriptor σ ν) : Bool :=
  let underPerClass := f.descriptor.testClass?.isSome && f.lifecycle = .perClass
  f.held.isEmpty && modeOf settings d underPerClass = .concurrent

def executeEach : List (Child σ ν) → Engine σ ν Unit
  | [] => return ()
  | (_, execute) :: rest => do
    execute
    executeEach rest

/-- Executes the children of the node the run is at: those on the same thread in order, and behind
them the concurrent ones, which take turns as they do on one thread. How more threads share them out is
not modelled. Concurrent children go on where another has panicked. -/
def executeChildren (children : List (Child σ ν)) : Engine σ ν Unit := do
  match ← Engine.top? with
  | none => return ()
  | some f =>
    let settings ← Engine.settings
    let (concurrent, sameThread) := children.partition fun (d, _) => isConcurrent settings f d
    executeEach sameThread
    executeEach (concurrent.map fun (d, execute) => (d, Engine.contain execute))

/-- The template above the node the run is at, if that is one, and its timeout. -/
def parentTemplate? : Engine σ ν (Option (Template σ ν × Option Duration)) := do
  match (← Engine.frames).tail with
  | [] => return none
  | f :: _ =>
    return match f.descriptor.role with
      | .template t => some (t, f.descriptor.timeout)
      | _ => none

/-- What the node `d` the run is at does. A node made at run time for a template runs its method. -/
def executeRole (d : Descriptor σ ν) (children : List (Child σ ν)) (skip : String → Engine σ ν Unit) :
    Engine σ ν ExecutionResult := do
  match d.role with
  | .engine =>
    executeChildren children
    return .successful
  | .testClass c =>
    let lifecycle := ((← Engine.top?).map (·.lifecycle)).getD .perMethod
    executeClass c lifecycle (executeChildren children) skip
  | .test m => leaf (invokeTest m d.timeout)
  | .template t => executeTemplate t d
  | .factory f => leaf (runFactory f d)
  | .dynamic =>
    match ← parentTemplate? with
    | some (t, limit) => leaf (invokeTest t.method limit)
    | none =>
      executeChildren children
      return .successful

mutual
def execute : TestTree σ ν → Engine σ ν Unit
  | .node d cs =>
    visit d ((TestTree.node d cs).preorder.flatMap (·.locks)) (skipAll cs)
      (executeRole d (childrenOf cs) (skipAll cs))
def childrenOf : List (TestTree σ ν) → List (Child σ ν)
  | [] => []
  | t :: ts => (t.descriptor, execute t) :: childrenOf ts
end

end TestEngine.Execution

import TestEngine.Execution.Visit

/-!
The life of a class: its instance if there is one for all tests, the callbacks and hooks before all,
the children, and the hooks and callbacks after all.
-/

namespace TestEngine.Execution
variable {σ ν : Type}

def mustBeStatic (className hook : String) : TestError :=
  .configuration ("Lifecycle method [" ++ className ++ "::" ++ hook
    ++ "] must be static unless the test class uses the per_class lifecycle")

/-- The first hook around all tests that would need an instance where each test has its own. -/
def misplacedHook? (c : TestClass σ ν) (lifecycle : Lifecycle) : Option TestError :=
  match lifecycle with
  | .perClass => none
  | .perMethod =>
    ((c.beforeAll ++ c.afterAll).find? (!·.isStatic)).map fun m => mustBeStatic c.name m.name

/-- What a class needs before anything of it runs: with one instance for all tests, that instance.
Answers the levels constructed for it. -/
def setUp (c : TestClass σ ν) (lifecycle : Lifecycle) : Attempt σ ν (List Level) := do
  Engine.check (misplacedHook? c lifecycle)
  match lifecycle with
  | .perMethod => return []
  | .perClass => instantiate

def hooksOf (capability : Capability) (c : TestClass σ ν) (hooks : List (Method σ ν Unit)) :
    Engine σ ν (List (Attempt σ ν Unit)) := do
  return (orderHooks (hookOrder (← Engine.settings) c) hooks).map (invokeOnClass capability c.name)

/-- The children run unless something has been raised; then they are skipped with what was. -/
def childrenUnless (c : Collector) (children : Engine σ ν Unit) (skip : String → Engine σ ν Unit) :
    Engine σ ν Unit :=
  match c.primary with
  | none => children
  | some e => skip ("Container setup failed: " ++ e.message)

/-- The steps of a class once it is set up. The hooks after all run if those before all were come to. -/
def classSteps (c : TestClass σ ν) (children : Engine σ ν Unit) (skip : String → Engine σ ν Unit) :
    Engine σ ν Collector := do
  let before ← collectUntilError .empty (← callbacks .beforeAll)
  let hooksEntered := before.isEmpty
  let before ← proceedIf hooksEntered before fun before => do
    collectUntilError before (← hooksOf .beforeAll c c.beforeAll)
  childrenUnless before children skip
  let after ← proceedIf hooksEntered before fun before => do
    collectAll before (← hooksOf .afterAll c c.afterAll)
  collectAll after (← callbacks .afterAll)

def executeClass (c : TestClass σ ν) (lifecycle : Lifecycle) (children : Engine σ ν Unit)
    (skip : String → Engine σ ν Unit) : Engine σ ν ExecutionResult := do
  match ← (setUp c lifecycle).run with
  | .error fault =>
    let failed := Collector.empty.record (.error fault)
    childrenUnless failed children skip
    return failed.toResult
  | .ok created =>
    let gathered ← classSteps c children skip
    return (← collect gathered (destroy created)).toResult

end TestEngine.Execution

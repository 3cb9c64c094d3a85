import TestEngine.Execution.Instances

/-!
The life of a leaf: instances are made, the callbacks before it, its body, and the callbacks after it
run. The callbacks before it stop at the first error; those after it always all run.
-/

namespace TestEngine.Execution
variable {σ ν : Type}

/-- What a callback before or after each test does: its own code, or a hook of a class. -/
def eachCode (capability : Capability) : EachCallback σ ν → Attempt σ ν Unit
  | .code code => perform code
  | .hook className m => invokeOnClass capability className m

/-- What an extension does for a capability that needs nothing but the view. -/
def callbackCode (capability : Capability) (e : Extension σ ν) : Option (Attempt σ ν Unit) :=
  match capability with
  | .beforeAll => e.beforeAll.map perform
  | .afterAll => e.afterAll.map perform
  | .beforeEach => e.beforeEach.map (eachCode capability)
  | .afterEach => e.afterEach.map (eachCode capability)
  | .beforeTestExecution => e.beforeTestExecution.map perform
  | .afterTestExecution => e.afterTestExecution.map perform
  | _ => none

def callback (capability : Capability) (e : Extension σ ν) : Option (Attempt σ ν Unit) :=
  (callbackCode capability e).map (Engine.step (.callback capability e.name))

/-- The callbacks of a capability in the order they apply to the node the run is at. -/
def callbacks (capability : Capability) : Engine σ ν (List (Attempt σ ν Unit)) :=
  return (← Engine.extensions capability).filterMap (callback capability)

/-- Tells the callbacks that follow what has been raised so far. -/
def showException (c : Collector) : Engine σ ν Unit :=
  Engine.modifyTop fun f => { f with exception := c.primary }

/-- The callbacks right around the body, and the body if those before it succeed. -/
def aroundBody (c : Collector) (body : Option TestInstance → Attempt σ ν Unit) :
    Engine σ ν Collector := do
  let c ← collectUntilError c (← callbacks .beforeTestExecution)
  let c ← proceedIf c.isEmpty c fun c => do collect c (body (← innermost?))
  showException c
  collectAll c (← callbacks .afterTestExecution)

/-- The steps of a leaf once its instances are there. -/
def leafSteps (body : Option TestInstance → Attempt σ ν Unit) : Engine σ ν Collector := do
  let c ← collectUntilError .empty (← callbacks .beforeEach)
  let c ← proceedIf c.isEmpty c fun c => aroundBody c body
  showException c
  collectAll c (← callbacks .afterEach)

/-- Executes the node the run is at as a leaf. Nothing runs if its instances cannot be made. -/
def leaf (body : Option TestInstance → Attempt σ ν Unit) : Engine σ ν ExecutionResult := do
  match ← instantiate.run with
  | .error fault => return .ofError fault.toError
  | .ok created =>
    let c ← leafSteps body
    return (← collect c (destroy created)).toResult

def abandonAfter (outcome : Except Fault Unit) (inst : Option TestInstance) : Engine σ ν Unit :=
  match outcome, inst with
  | .error (.error e), some i => if e.kind = .timeout then Engine.abandon i else return ()
  | _, _ => return ()

/-- Invokes a test method, with a deadline if it has one. An instance on which it times out is
abandoned. -/
def invokeTest (m : Method σ ν Unit) (limit : Option Duration) (inst : Option TestInstance) :
    Attempt σ ν Unit := ExceptT.mk do
  let inst := if m.isStatic then none else inst
  let step := Engine.step (.body m.name (inst.map (·.number)))
  let settings ← Engine.settings
  match limit.orElse fun _ => settings.defaultTimeout with
  | none => (step (invoke m inst)).run
  | some deadline =>
    let name := ((← Engine.top?).map (·.descriptor.displayName)).getD ""
    let outcome ← (step (Engine.before deadline ("Execution of [" ++ name ++ "]") (invoke m inst))).run
    abandonAfter outcome inst
    return outcome

end TestEngine.Execution

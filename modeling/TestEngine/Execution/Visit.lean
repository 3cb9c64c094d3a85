import TestEngine.Execution.Leaf

/-!
Entering and leaving nodes: their registries, frames and locks, the conditions that may keep them from
running, and the events that report them.
-/

namespace TestEngine.Execution
variable {σ ν : Type}

/-- Registers extensions one after the other, up to the first that is refused. -/
def registerAll (r : Registry (Extension σ ν)) :
    List (Declared σ ν) → Except TestError (Registry (Extension σ ν))
  | [] => .ok r
  | d :: ds =>
    match r.register d.extension d.position with
    | .error e => .error e
    | .ok r => registerAll r ds

/-- The hooks of a class around each test, as extensions. The hooks after it are listed from last to
first, since the registry turns the order of what comes after around. -/
def hookExtensions (c : TestClass σ ν) (order : HookOrder) : List (Declared σ ν) :=
  (orderHooks order c.beforeEach).map (fun m => ⟨.beforeEachHook c.name m, .default⟩)
    ++ ((orderHooks order c.afterEach).reverse).map (fun m => ⟨.afterEachHook c.name m, .default⟩)

def hookOrder (settings : Settings) (c : TestClass σ ν) : HookOrder :=
  c.hookOrder.getD settings.hookOrder

/-- The registry of a node: its extensions, and behind them the hooks of its class. -/
def registryFor (settings : Settings) (d : Descriptor σ ν) (parent : Registry (Extension σ ν)) :
    Except TestError (Registry (Extension σ ν)) :=
  let hooks := match d.testClass? with
    | some c => hookExtensions c (hookOrder settings c)
    | none => []
  registerAll (parent.child d.role.scope) (d.extensions ++ hooks)

/-- A class has the lifecycle it declares, or the default; other nodes have that of the node above. -/
def lifecycleOf (settings : Settings) (d : Descriptor σ ν) (above : Option (Frame σ ν)) : Lifecycle :=
  match d.testClass? with
  | some c => c.lifecycle.getD settings.defaultLifecycle
  | none => (above.map (·.lifecycle)).getD settings.defaultLifecycle

def frameFor (d : Descriptor σ ν) (registry : Registry (Extension σ ν)) (held : List String) :
    Engine σ ν (Frame σ ν) := do
  let lifecycle := lifecycleOf (← Engine.settings) d (← Engine.top?)
  return { descriptor := d, registry, lifecycle, held }

/-- Runs user code that cannot fail; a panic is a fault all the same. -/
def observe (code : Program σ ν Unit) : Attempt σ ν Unit := ExceptT.mk do
  match ← run code with
  | .ok () => return .ok ()
  | .error payload => return .error (.panic payload)

def notify (tell : Watcher σ ν → Program σ ν Unit) : Engine σ ν Unit := do
  let steps := (← Engine.extensions .watcher).filterMap fun e =>
    e.watcher.map fun w => Engine.step (.watcher e.name) (observe (tell w))
  discard (collectAll .empty steps)

/-- Tells the watchers of the node `d` the run is at. Only tests have watchers. -/
def announce (d : Descriptor σ ν) (tell : Watcher σ ν → Program σ ν Unit) : Engine σ ν Unit :=
  if d.kind = .test then notify tell else return ()

def verdictOn (r : ExecutionResult) (w : Watcher σ ν) : Program σ ν Unit :=
  match r with
  | .successful => w.successful
  | .aborted e => w.aborted e
  | .failed e => w.failed e

def closeStore : Attempt σ ν Unit := do
  match ← ExceptT.lift Engine.top? with
  | none => return ()
  | some f =>
    ExceptT.lift (Engine.modifyTop fun f => { f with store := f.store.close })
    Engine.step .closeStore (ExceptT.mk (Engine.act f.store.release))

/-- The result of a collector whose errors are returned, none of them a panic. -/
def toCleanup : Except Fault Unit → Except TestError Unit
  | .ok () => .ok ()
  | .error f => .error f.toError

/-- Reports the result of the node `d` the run is at, after its store is closed and its watchers are
told. -/
def finish (d : Descriptor σ ν) (r : ExecutionResult) : Engine σ ν Unit := do
  let r := r.withCleanup (toCleanup (← closeStore.run))
  announce d (verdictOn r)
  Engine.report d.node (.finished r)

/-- Reports the node `d` the run is at as skipped, and then what is below it. -/
def reportSkipped (d : Descriptor σ ν) (reason : String) (below : Engine σ ν Unit) :
    Engine σ ν Unit := do
  Engine.report d.node (.skipped reason)
  announce d fun w => w.disabled reason
  below
  discard closeStore.run

/-- Exclusive resources that are not held yet, each once and in the one order that all nodes keep to. -/
def lockOrder (names held : List String) : List String :=
  sortDistinct (names.filter (!held.contains ·))

/-- The exclusive resources a node takes: none if it declares none that is not held; else all that its
subtree declares, apart from those that are held. -/
def locksToTake (d : Descriptor σ ν) (subtree held : List String) : List String :=
  if d.locks.all held.contains then [] else lockOrder subtree held

def registration (refusal : Option TestError) : Attempt σ ν Unit :=
  Engine.step .registration (Engine.raising refusal)

/-- Marks what becomes of the resources that are taken, if there are any. -/
def markTaken (taken : List String) (entry : Entry ν) : Engine σ ν Unit :=
  unless taken.isEmpty do Engine.append entry

/-- Runs `code` while the node with this identifier holds the resources it takes. -/
def holding (id : UniqueId) (taken : List String) (code : Engine σ ν Unit) : Engine σ ν Unit := do
  markTaken taken (.locked id taken)
  code
  markTaken taken (.unlocked id)

/-- What the node `d` the run is at does if its extensions are refused. -/
def refused (d : Descriptor σ ν) (e : TestError) (skip : String → Engine σ ν Unit) : Engine σ ν Unit := do
  discard (registration (some e)).run
  Engine.report d.node .started
  skip ("Extension registration failed: " ++ e.message)
  finish d (.failed e)

/-- What the node `d` the run is at does once its extensions are registered: its body, unless a
condition disables it or fails. -/
def admitted (d : Descriptor σ ν) (skip : String → Engine σ ν Unit) (body : Engine σ ν ExecutionResult) :
    Engine σ ν Unit := do
  discard (registration none).run
  match ← evaluateConditions.run with
  | .ok (.disabled reason) => reportSkipped d reason (skip reason)
  | .ok (.enabled _) =>
    Engine.report d.node .started
    finish d (← body)
  | .error fault =>
    Engine.report d.node .started
    skip ("Condition evaluation failed: " ++ fault.toError.message)
    finish d (.failed fault.toError)

/-- Executes the node `d` below the one the run is at. `subtree` are the resources declared in its
subtree, `skip` reports the nodes below it as skipped, and `body` is what it does. -/
def visit (d : Descriptor σ ν) (subtree : List String) (skip : String → Engine σ ν Unit)
    (body : Engine σ ν ExecutionResult) : Engine σ ν Unit := do
  let heldAbove := ((← Engine.top?).map (·.held)).getD []
  let taken := locksToTake d subtree heldAbove
  holding d.id taken do
    let parent ← Engine.currentRegistry
    match registryFor (← Engine.settings) d parent with
    | .error e => Engine.within (← frameFor d parent (heldAbove ++ taken)) (refused d e skip)
    | .ok registry => Engine.within (← frameFor d registry (heldAbove ++ taken)) (admitted d skip body)

/-- Reports a node that is not executed below the one the run is at. Where its extensions cannot be
registered, those above are told. -/
def visitSkipped (d : Descriptor σ ν) (reason : String) (below : Engine σ ν Unit) :
    Engine σ ν Unit := do
  let parent ← Engine.currentRegistry
  let registry := match registryFor (← Engine.settings) d parent with
    | .ok registry => registry
    | .error _ => parent
  Engine.within (← frameFor d registry []) (reportSkipped d reason below)

end TestEngine.Execution

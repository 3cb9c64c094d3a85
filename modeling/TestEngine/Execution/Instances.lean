import TestEngine.Execution.Code

/-! Chains of instances: construction, use, and destruction. -/

namespace TestEngine.Execution
variable {σ ν α : Type}

/-- Resolves the parameters of a method and invokes it, on an instance or without one. -/
def invoke (m : Method σ ν α) (inst : Option TestInstance) : Attempt σ ν α := do
  let arguments ← resolveParameters m.name m.parameters
  let body := perform (m.body ⟨inst, arguments⟩)
  match inst with
  | none => body
  | some i => Engine.occupying i body

/-- The classes of a path below the nearest node that has a chain, outermost first, and that chain. -/
def pending : List (Frame σ ν) → List (TestClass σ ν) × List Level
  | [] => ([], [])
  | f :: above =>
    match f.instances with
    | some chain => ([], chain)
    | none =>
      let (classes, chain) := pending above
      (classes ++ f.descriptor.testClass?.toList, chain)

/-- Shows a new instance to the post-processors, up to the first that fails. -/
def postProcess (inst : TestInstance) : List (Extension σ ν) → Attempt σ ν Unit
  | [] => return ()
  | e :: es => do
    match e.instancePostProcessor with
    | none => postProcess inst es
    | some processor =>
      Engine.step (.postProcess e.name inst.number) (perform (processor inst))
      postProcess inst es

def construct (c : TestClass σ ν) (enclosing : Option TestInstance) : Attempt σ ν TestInstance := do
  let number ← ExceptT.lift Engine.freshNumber
  let content ← Engine.step (.construction c.name number (enclosing.map (·.number)))
    (invoke c.constructor enclosing)
  let inst : TestInstance := ⟨number, content⟩
  postProcess inst (← ExceptT.lift (Engine.extensions .instancePostProcessor))
  return inst

/-- Extends a chain by an instance of each class, every one within the one before. -/
def constructAll (chain : List Level) : List (TestClass σ ν) → Attempt σ ν (List Level)
  | [] => return chain
  | c :: cs => do
    let inst ← construct c (chain.getLast?.map (·.inst))
    constructAll (chain ++ [⟨c.name, inst⟩]) cs

/-- Gives the node the run is at a chain of instances, and answers the levels constructed for it. -/
def instantiate : Attempt σ ν (List Level) := Engine.step .instantiation do
  let (classes, inherited) := pending (← ExceptT.lift Engine.frames)
  let chain ← constructAll inherited classes
  ExceptT.lift (Engine.modifyTop fun f => { f with instances := some chain })
  return chain.drop inherited.length

def innermost? : Engine σ ν (Option TestInstance) :=
  return ((← Engine.instances?).bind List.getLast?).map (·.inst)

def noInstance (className method : String) : TestError :=
  .configuration ("No test instance of [" ++ className ++ "] is available to invoke [" ++ method
    ++ "]")

/-- Invokes a hook on the innermost instance of a class, or without one if it is static. -/
def invokeOnClass (capability : Capability) (className : String) (m : Method σ ν Unit) :
    Attempt σ ν Unit := do
  if m.isStatic then Engine.step (.hook capability className m.name none) (invoke m none)
  else
    let chain := (← ExceptT.lift Engine.instances?).getD []
    match chain.reverse.find? (·.className == className) with
    | none =>
      Engine.step (.hook capability className m.name none)
        (throw (.error (noInstance className m.name)))
    | some level =>
      Engine.step (.hook capability className m.name (some level.inst.number))
        (invoke m (some level.inst))

def collect (c : Collector) (code : Attempt σ ν Unit) : Engine σ ν Collector :=
  return c.record (← code.run)

def collectUntilError (c : Collector) : List (Attempt σ ν Unit) → Engine σ ν Collector
  | [] => return c
  | code :: rest => do if c.isEmpty then collectUntilError (← collect c code) rest else return c

def collectAll (c : Collector) : List (Attempt σ ν Unit) → Engine σ ν Collector
  | [] => return c
  | code :: rest => do collectAll (← collect c code) rest

/-- Goes on with `next` if it has been come to. -/
def proceedIf (entered : Bool) (c : Collector) (next : Collector → Engine σ ν Collector) :
    Engine σ ν Collector :=
  if entered then next c else return c

def raise (c : Collector) : Attempt σ ν Unit := Engine.raising c.primary

def farewells (level : Level) (es : List (Extension σ ν)) : List (Attempt σ ν Unit) :=
  es.filterMap fun e => e.instancePreDestroy.map fun callback =>
    Engine.step (.preDestroy e.name level.inst.number)
      (Engine.occupying level.inst (perform (callback level.inst)))

/-- Shows the created levels to the pre-destroy callbacks, the innermost first. -/
def destroy (created : List Level) : Attempt σ ν Unit := do
  let es ← ExceptT.lift (Engine.extensions .instancePreDestroy)
  let c ← ExceptT.lift (collectAll .empty (created.reverse.flatMap fun level => farewells level es))
  raise c

end TestEngine.Execution

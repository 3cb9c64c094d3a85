import TestEngine.Execution.Visit

/-!
Nodes made at run time: the invocations of templates, and the nodes that test factories make. Elements
are drawn one at a time; each is executed and reported before the next is drawn.
-/

namespace TestEngine.Execution
variable {σ ν α : Type}

/-- Does what drawing an element does, and answers what is drawn. -/
def drawItem (d : Draw σ ν α) : Engine σ ν (Except TestError α) := do
  let drawn : Attempt σ ν α := Engine.step .draw (ExceptT.mk (Engine.act fun s =>
    let (notes, s) := d.effect s
    (d.item.outcome, notes, s)))
  match ← drawn.run with
  | .ok value => return .ok value
  | .error fault => return .error fault.toError

def closeStream (s : Stream σ ν α) : Attempt σ ν Unit :=
  Engine.step .closeStream (ExceptT.mk (Engine.act s.release))

/-- A node made at run time below the node `parent`. -/
def dynamicDescriptor (parent : Descriptor σ ν) (segment : String) (index : Nat) (name : String)
    (kind : NodeKind) (extensions : List (Extension σ ν)) : Descriptor σ ν :=
  { id := parent.id.append segment ("#" ++ toString index), displayName := name, kind,
    source := parent.source, role := .dynamic, extensions := extensions.map (⟨·, .default⟩) }

/-- Takes elements in order, each with its number behind the `drawn` ones before it, up to the first
that raises an error. Answers how many were taken in all, and the error. -/
def inTurn {δ : Type} (take : Nat → δ → Engine σ ν (Option TestError)) (drawn : Nat) :
    List δ → Engine σ ν (Nat × Option TestError)
  | [] => return (drawn, none)
  | d :: ds => do
    match ← take (drawn + 1) d with
    | some e => return (drawn, some e)
    | none => inTurn take (drawn + 1) ds

/-- As `inTurn`, for the elements with the numbers from `i` on of a sequence without an end, a number
of them. -/
def upTo (take : Nat → Engine σ ν (Option TestError)) (drawn : Nat) :
    Nat → Nat → Engine σ ν (Nat × Option TestError)
  | 0, i => return (drawn + i, none)
  | left + 1, i => do
    match ← take i with
    | some e => return (drawn + i, some e)
    | none => upTo take drawn left (i + 1)

/-- How many elements are drawn from a sequence without an end before the run is given up. -/
def drawLimit : Nat := Decimal.twoTo 64

/-- Gives the run up if the draws have not ended in an error. -/
def withoutEnd (draws : Engine σ ν (Nat × Option TestError)) : Engine σ ν (Nat × Option TestError) := do
  match ← draws with
  | (drawn, some e) => return (drawn, some e)
  | (_, none) => Engine.halt .endless

/-- A closed stream has no draws left. -/
def unlessClosed (closed : Bool) (drawn : Nat) (draws : Engine σ ν (Nat × Option TestError)) :
    Engine σ ν (Nat × Option TestError) :=
  if closed then return (drawn, none) else draws

/-- The providers that support the template the run is at. A panic here is not contained. -/
def supportingProviders : List (Extension σ ν) →
    Engine σ ν (List (String × InvocationProvider σ ν (Extension σ ν)))
  | [] => return []
  | e :: es =>
    match e.invocationProvider with
    | none => supportingProviders es
    | some p => do
      let asked : Attempt σ ν Bool := Engine.step (.supports e.name) (ExceptT.mk do
        match ← run p.supports with
        | .ok answer => return .ok answer
        | .error payload => return .error (.panic payload))
      match ← asked.run with
      | .error (.panic payload) => Engine.halt (.panicked payload)
      | .error (.error _) => supportingProviders es
      | .ok here =>
        let others ← supportingProviders es
        return if here then (e.name, p) :: others else others

def executeInvocation (t : Template σ ν) (template : Descriptor σ ν) (index : Nat)
    (invocation : TemplateInvocation (Extension σ ν)) : Engine σ ν Unit := do
  let d := dynamicDescriptor template "test-template-invocation" index invocation.displayName .test
    invocation.extensions
  Engine.report d.node .registered
  visit d [] (fun _ => pure ()) (leaf (invokeTest t.method template.timeout))

/-- Draws one element and executes it if it is selected. Answers the error that the draw raises. -/
def executeDraw (t : Template σ ν) (template : Descriptor σ ν) (index : Nat)
    (d : Draw σ ν (TemplateInvocation (Extension σ ν))) : Engine σ ν (Option TestError) := do
  match ← drawItem d with
  | .error e => return some e
  | .ok invocation =>
    if t.selection.all (·.contains index) then executeInvocation t template index invocation
    return none

/-- Draws elements from a source and executes them, up to the number `last` and to the first error.
Answers how many have been drawn, with the `drawn` ones before it, and the error. -/
def executeSource (t : Template σ ν) (template : Descriptor σ ν) (drawn : Nat) :
    Source σ ν (TemplateInvocation (Extension σ ν)) → Engine σ ν (Nat × Option TestError)
  | .listed draws =>
    inTurn (executeDraw t template) drawn
      ((t.selection.bind Selection.max?).elim draws fun last => draws.take (last - drawn))
  | .endless draw =>
    match t.selection.bind Selection.max? with
    | some last => upTo (fun i => executeDraw t template (drawn + i + 1) (draw i)) drawn (last - drawn) 0
    | none =>
      withoutEnd (upTo (fun i => executeDraw t template (drawn + i + 1) (draw i)) drawn drawLimit 0)

def notObtained (provider : String) (e : TestError) : TestError :=
  e.context ("Failed to obtain invocations from [" ++ provider ++ "]")

def obtain (name : String) (p : InvocationProvider σ ν (Extension σ ν)) :
    Attempt σ ν (Stream σ ν (TemplateInvocation (Extension σ ν))) :=
  Engine.step (.provide name) (ExceptT.mk do
    match ← (perform p.provide).run with
    | .ok stream => return .ok stream
    | .error fault => return .error (.error (notObtained name fault.toError)))

/-- Runs the invocations of one provider after another, up to the first error. Answers how many have
been drawn, and what has been raised. -/
def executeProviders (t : Template σ ν) (template : Descriptor σ ν) (drawn : Nat) :
    List (String × InvocationProvider σ ν (Extension σ ν)) → Engine σ ν (Nat × Collector)
  | [] => return (drawn, .empty)
  | (name, p) :: ps => do
    match ← (obtain name p).run with
    | .error fault => return (drawn, Collector.empty.add fault.toError)
    | .ok stream =>
      let (drawn, error) ←
        unlessClosed stream.closed drawn (executeSource t template drawn stream.source)
      let c := error.elim Collector.empty Collector.empty.add
      let c ← collect c (closeStream stream)
      if c.isEmpty then executeProviders t template drawn ps else return (drawn, c)

def noProvider (displayName : String) : TestError :=
  .configuration ("You must register at least one InvocationContextProvider that supports test "
    ++ "template [" ++ displayName ++ "]")

def noInvocations (displayName : String) : TestError :=
  .configuration ("None of the InvocationContextProviders for test template [" ++ displayName
    ++ "] provided any invocation contexts")

/-- Runs the invocations of the template `d` that the run is at. There have to be some, unless the
template says otherwise. -/
def expandTemplate (t : Template σ ν) (d : Descriptor σ ν)
    (providers : List (String × InvocationProvider σ ν (Extension σ ν))) : Engine σ ν Collector := do
  let (drawn, c) ← executeProviders t d 0 providers
  let missing := drawn = 0 && c.isEmpty && !t.allowZero
  collect c (Engine.check (if missing then some (noInvocations d.displayName) else none))

def executeTemplate (t : Template σ ν) (d : Descriptor σ ν) : Engine σ ν ExecutionResult := do
  let providers ← supportingProviders (← Engine.extensions .invocationProvider)
  let c ← collect .empty
    (Engine.check (if providers.isEmpty then some (noProvider d.displayName) else none))
  return (← proceedIf c.isEmpty c fun _ => expandTemplate t d providers).toResult

/-- Executes a node made below the one the run is at. It is registered and started at once: no
condition is asked and no instance is made for it. -/
def executeDynamicNode (segment : String) (kind : NodeKind) (index : Nat) (name : String)
    (body : Engine σ ν Collector) : Engine σ ν Unit := do
  match ← Engine.top? with
  | none => return ()
  | some parent =>
    let d := dynamicDescriptor parent.descriptor segment index name kind []
    Engine.report d.node .registered
    let frame : Frame σ ν :=
      { descriptor := d, registry := parent.registry.child .invocation,
        lifecycle := parent.lifecycle, held := parent.held }
    Engine.within frame do
      Engine.report d.node .started
      let c ← body
      finish d c.toResult

/-- What a container or a factory gathers: the error of its draws, and those of closing its stream. -/
def closing (onClose : List (Action σ ν Unit)) (closed : Bool) (error : Option TestError) :
    Engine σ ν Collector :=
  collect (error.elim Collector.empty Collector.empty.add)
    (closeStream (α := Unit) ⟨.listed [], onClose, closed⟩)

mutual
def executeDynamic : DynamicNode σ ν → Nat → Engine σ ν Unit
  | .test name body, index =>
    executeDynamicNode "dynamic-test" .test index name
      (collect .empty (Engine.step .dynamicBody (perform body)))
  | .container name ⟨source, onClose, closed⟩, index =>
    executeDynamicNode "dynamic-container" .container index name do
      let (_, error) ← unlessClosed closed 0 (executeNodes source)
      closing onClose closed error
termination_by structural n => n
/-- Executes the nodes of a source in order, up to the first error. Answers how many have been drawn,
and the error. -/
def executeNodes : Source σ ν (DynamicNode σ ν) → Engine σ ν (Nat × Option TestError)
  | .listed draws => executeListed draws 0
  | .endless draw => withoutEnd (upTo (fun i => executeNode (draw i) (i + 1)) 0 drawLimit 0)
termination_by structural s => s
/-- As `inTurn`, for nodes. -/
def executeListed : List (Draw σ ν (DynamicNode σ ν)) → Nat → Engine σ ν (Nat × Option TestError)
  | [], drawn => return (drawn, none)
  | d :: ds, drawn => do
    match ← executeNode d (drawn + 1) with
    | some e => return (drawn, some e)
    | none => executeListed ds (drawn + 1)
termination_by structural ds => ds
def executeNode : Draw σ ν (DynamicNode σ ν) → Nat → Engine σ ν (Option TestError)
  | ⟨effect, .value node⟩, index => do
    discard (drawItem (α := Unit) ⟨effect, .value ()⟩)
    executeDynamic node index
    return none
  | ⟨effect, .error e⟩, _ => do
    discard (drawItem (α := Unit) ⟨effect, .error e⟩)
    return some e
  | ⟨effect, .panic payload⟩, _ => do
    discard (drawItem (α := Unit) ⟨effect, .panic payload⟩)
    return some (Fault.panic payload).toError
termination_by structural d => d
end

def noDynamicTests (displayName : String) : TestError :=
  .configuration ("Test factory [" ++ displayName ++ "] produced no dynamic tests")

/-- Invokes the method of the factory `d` the run is at, and executes the nodes it makes. -/
def runFactory (f : Factory σ ν) (d : Descriptor σ ν) (inst : Option TestInstance) :
    Attempt σ ν Unit := do
  let inst := if f.method.isStatic then none else inst
  let stream ← Engine.step (.body f.method.name (inst.map (·.number))) (invoke f.method inst)
  let (drawn, error) ← ExceptT.lift (unlessClosed stream.closed 0 (executeNodes stream.source))
  let c ← ExceptT.lift (closing stream.onClose stream.closed error)
  let missing := drawn = 0 && c.isEmpty && !f.allowZero
  raise (← ExceptT.lift (collect c (Engine.check
    (if missing then some (noDynamicTests d.displayName) else none))))

end TestEngine.Execution

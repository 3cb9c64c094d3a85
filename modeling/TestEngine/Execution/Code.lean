import TestEngine.Execution.World

/-!
Running user code. A request to resolve parameters or to evaluate conditions runs more user code, which
may make such requests in turn; how deep that goes is bounded.
-/

namespace TestEngine

abbrev Runner (σ ν : Type) : Type 1 :=
  ∀ {α : Type}, Program σ ν α → Engine σ ν (Except PanicPayload α)

namespace Execution
variable {σ ν α : Type}

def call (run : Runner σ ν) (code : Code σ ν α) : Attempt σ ν α := ExceptT.mk do
  match ← run code with
  | .ok (.ok value) => return .ok value
  | .ok (.error e) => return .error (.error e)
  | .error payload => return .error (.panic payload)

/-- Changes the errors that `code` returns, and lets panics be. -/
def relabel (change : TestError → TestError) (code : Attempt σ ν α) : Attempt σ ν α := ExceptT.mk do
  match ← code.run with
  | .error (.error e) => return .error (.error (change e))
  | outcome => return outcome

end Execution

namespace ParameterContext

def place (p : ParameterContext) : String :=
  "parameter [" ++ p.parameter.render ++ "] in method [" ++ p.executable ++ "]"

/-- Whatever a resolver raises becomes an error of the configuration or the resolution. -/
def wrap (p : ParameterContext) (e : TestError) : TestError :=
  match e.kind with
  | .resolution | .configuration => e
  | _ => .resolution ("Failed to resolve " ++ p.place ++ ": " ++ e.message)

def unsupported (p : ParameterContext) : TestError :=
  .resolution ("No ParameterResolver registered for " ++ p.place ++ ".")

def competing (p : ParameterContext) (names : List String) : TestError :=
  .configuration ("Discovered multiple competing ParameterResolvers for " ++ p.place ++ ": "
    ++ ", ".intercalate names)

def rejection? (p : ParameterContext) (resolver : String) (v : Value) : Option TestError :=
  let type := p.parameter.type
  if v.isNull && type.isPrimitive then
    some (.resolution ("ParameterResolver [" ++ resolver ++ "] resolved a null value for " ++ p.place
      ++ ", but a primitive of type [" ++ type.render ++ "] is required."))
  else if !type.accepts v then
    some (.resolution ("ParameterResolver [" ++ resolver ++ "] resolved a value of type ["
      ++ v.typeName ++ "] for " ++ p.place ++ ", but a value assignment compatible with ["
      ++ type.render ++ "] is required."))
  else none

end ParameterContext

namespace Execution
variable {σ ν α : Type}

/-- The resolvers that support a parameter, each with the name of its extension. -/
def supporting (run : Runner σ ν) (p : ParameterContext) :
    List (Extension σ ν) → Attempt σ ν (List (String × ParameterResolver σ ν))
  | [] => return []
  | e :: es =>
    match e.parameterResolver with
    | none => supporting run p es
    | some r => do
      let here ← relabel p.wrap
        (Engine.step (.resolver e.name p.parameter.name) (call run (r.supports p)))
      let others ← supporting run p es
      return if here then (e.name, r) :: others else others

/-- The value of the one resolver that supports the parameter. -/
def resolveParameter (run : Runner σ ν) (p : ParameterContext) (resolvers : List (Extension σ ν)) :
    Attempt σ ν Value := do
  match ← supporting run p resolvers with
  | [] => throw (.error p.unsupported)
  | [(name, r)] =>
    let v ← relabel p.wrap (Engine.step (.resolver name p.parameter.name) (call run (r.resolve p)))
    match p.rejection? name v with
    | some e => throw (.error e)
    | none => return v
  | many => throw (.error (p.competing (many.map (·.1))))

/-- The values of the parameters in order, up to the first that has none. -/
def resolveEach (run : Runner σ ν) (executable : String) (resolvers : List (Extension σ ν)) :
    List Parameter → Attempt σ ν (List Value)
  | [] => return []
  | p :: ps => do
    let v ← resolveParameter run ⟨p, executable⟩ resolvers
    let vs ← resolveEach run executable resolvers ps
    return v :: vs

def resolveWith (run : Runner σ ν) (executable : String) (parameters : List Parameter) :
    Attempt σ ν (List Value) := do
  let resolvers ← ExceptT.lift (Engine.extensions .parameterResolver)
  resolveEach run executable resolvers parameters

def conditionFailed (extension : String) (f : Fault) : TestError :=
  .configuration ("Failed to evaluate condition [" ++ extension ++ "]: " ++ f.toError.message)

/-- Asks the conditions in order, up to the first that disables the node or fails. -/
def askConditions (run : Runner σ ν) (deactivated : List (String → Bool)) :
    List (Extension σ ν) → Engine σ ν (Except TestError Verdict)
  | [] => return .ok (.enabled "No disabling condition found")
  | e :: es =>
    match e.condition with
    | none => askConditions run deactivated es
    | some code =>
      if deactivated.any (· e.name) then askConditions run deactivated es
      else do
        match ← (Engine.step (.condition e.name) (call run code)).run with
        | .error fault => return .error (conditionFailed e.name fault)
        | .ok (.disabled reason) => return .ok (.disabled reason)
        | .ok (.enabled _) => askConditions run deactivated es

def evaluateWith (run : Runner σ ν) (deactivated : List (String → Bool)) :
    Engine σ ν (Except TestError Verdict) := do
  askConditions run deactivated (← Engine.extensions .condition)

/-- The patterns for the names of conditions that a configuration deactivates. Blank and malformed
patterns are passed over. -/
def deactivatedBy (glob : Glob.Library) (c : Configuration) : List (String → Bool) :=
  match c.get? Key.deactivateConditions with
  | none => []
  | some text =>
    (((Text.split ',' text.toList).map Text.trim).filter (!·.isEmpty)).filterMap fun pattern =>
      glob (String.ofList pattern)

/-- How the requests that run more user code are answered. -/
structure Handlers (σ ν : Type) where
  resolve : String → List Parameter → Engine σ ν (Except Fault (List Value))
  evaluate : List (String → Bool) → Engine σ ν (Except TestError Verdict)

end Execution

namespace Program
variable {σ ν α : Type}

def runWith (h : Execution.Handlers σ ν) : Program σ ν α → Engine σ ν (Except PanicPayload α)
  | .done value => return .ok value
  | .panic payload => return .error payload
  | .note n next => do
    Engine.append (.note n)
    runWith h next
  | .state change next => do
    let old ← modifyGet fun w => (w.user, { w with user := change w.user })
    runWith h (next old)
  | .look next => do runWith h (next (← Engine.view))
  | .publish node values next => do
    Engine.report node (.entry values)
    runWith h next
  | .sleep time next => do
    Engine.sleep time
    runWith h next
  | .store levelsUp key request next => do
    runWith h (next (← Engine.askStore levelsUp key request))
  | .fresh next => do runWith h (next (← Engine.freshNumber))
  | .lockInnermost next => do runWith h (next (← Engine.lockInnermost))
  | .resolve executable parameters next => do
    runWith h (next (← h.resolve executable parameters))
  | .evaluate c next => do
    let verdict ← h.evaluate (Execution.deactivatedBy Glob.library c)
    runWith h (next (match verdict with
      | .ok v => .ok v
      | .error e => .error (.error e)))

/-- How deep resolutions and evaluations may be nested in one another. Code that goes deeper is not
followed. -/
def nestingLimit : Nat := 1000

end Program

namespace Execution
variable {σ ν α : Type}

/-- The handlers of code that may nest `depth` more levels. -/
def handlers : Nat → Handlers σ ν
  | 0 => { resolve := fun _ _ => Engine.halt .nesting, evaluate := fun _ => Engine.halt .nesting }
  | depth + 1 =>
    { resolve := fun executable ps =>
        (resolveWith (Program.runWith (handlers depth)) executable ps).run
      evaluate := evaluateWith (Program.runWith (handlers depth)) }

def run : Runner σ ν := Program.runWith (handlers Program.nestingLimit)

def perform (code : Code σ ν α) : Attempt σ ν α := call run code

def resolveParameters (executable : String) (ps : List Parameter) : Attempt σ ν (List Value) :=
  resolveWith run executable ps

/-- What the conditions that are not deactivated say about the node the run is at. -/
def evaluateConditions : Attempt σ ν Verdict :=
  Engine.step .conditions (ExceptT.mk do
    match ← evaluateWith run (← read).deactivated with
    | .ok verdict => return .ok verdict
    | .error e => return .error (.error e))

end Execution

end TestEngine

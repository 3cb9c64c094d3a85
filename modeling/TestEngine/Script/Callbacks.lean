import TestEngine.Script.Code

/-! Extensions whose callbacks play scripts. -/

namespace TestEngine

namespace Script

/-- How an extension resolves parameters: those that fit everything it asks for. -/
structure Resolving where
  type : Option String := none
  parameter : Option String := none
  executable : Option String := none
  /-- Played, without a line, when it is asked what it supports. -/
  supports : Script := []
  script : Script := []
  value : Value

/-- How an extension provides invocations: to the template with a display name, or to all. -/
structure Providing where
  template : Option String := none
  /-- Raised when it is asked what it supports. -/
  supportsPanic : Option PanicPayload := none
  script : Script := []
  invocations : Stream State Note (TemplateInvocation (Extension State Note))

structure Callbacks where
  name : String
  /-- Tells its calls from those of other extensions. -/
  owner : Nat
  /-- The scripts of the capabilities that need no more than one. -/
  scripts : List (Capability × Script) := []
  condition : Option (Verdict × Script) := none
  resolving : Option Resolving := none
  providing : Option Providing := none

/-- What lines call the callback of a capability. -/
def callbackName : Capability → String
  | .condition => "condition"
  | .beforeAll => "before_all"
  | .afterAll => "after_all"
  | .beforeEach => "before_each"
  | .afterEach => "after_each"
  | .beforeTestExecution => "before_test_execution"
  | .afterTestExecution => "after_test_execution"
  | .parameterResolver => "resolve"
  | .instancePostProcessor => "post_process"
  | .instancePreDestroy => "pre_destroy"
  | .invocationProvider => "provide"
  | .watcher => "watch"

namespace Callbacks

/-- A callback: a line with its name, the node and whatever else there is to say, then a script. -/
def play (c : Callbacks) (callback about : String) (busy : Bool) (script : Script) : Play Unit := do
  let call ← Play.call c.owner callback
  Play.say (c.name ++ "." ++ callback ++ " @" ++ (← Play.view).node.displayName ++ about)
  playAll { busy, call } script

def code? (c : Callbacks) (capability : Capability) : Option (Code State Note Unit) :=
  (c.scripts.lookup capability).map fun script =>
    (c.play (callbackName capability) "" false script).run

/-- A callback that is told of an instance, which it may not wait for. -/
def onInstance? (c : Callbacks) (capability : Capability) :
    Option (TestInstance → Code State Note Unit) :=
  (c.scripts.lookup capability).map fun script inst =>
    (c.play (callbackName capability) (" " ++ inst.content.label) true script).run

/-- A watcher plays one script whatever it is told. Its errors go nowhere. -/
def watcher? (c : Callbacks) : Option (Watcher State Note) :=
  (c.scripts.lookup .watcher).map fun script =>
    let told (callback about : String) : Program State Note Unit :=
      (c.play callback about false script).run.bind fun _ => .done ()
    let because (reason : String) : String := " (" ++ reason ++ ")"
    { disabled := fun reason => told "test_disabled" (because reason)
      successful := told "test_successful" ""
      aborted := fun e => told "test_aborted" (because e.message)
      failed := fun e => told "test_failed" (because e.message) }

def condition? (c : Callbacks) : Option (Code State Note Verdict) :=
  c.condition.map fun (verdict, script) => ExceptT.run do
    c.play (callbackName .condition) "" false script
    return verdict

def resolver? (c : Callbacks) : Option (ParameterResolver State Note) :=
  c.resolving.map fun r =>
    { supports := fun p => ExceptT.run do
        playAll {} r.supports
        return r.type.all (· == p.parameter.type.render) && r.parameter.all (· == p.parameter.name)
          && r.executable.all (· == p.executable)
      resolve := fun p => ExceptT.run do
        c.play (callbackName .parameterResolver)
          (" [" ++ p.parameter.render ++ "] #" ++ toString p.parameter.index ++ " of " ++ p.executable)
          false r.script
        return r.value }

def provider? (c : Callbacks) : Option (InvocationProvider State Note (Extension State Note)) :=
  c.providing.map fun p =>
    { supports :=
        match p.supportsPanic with
        | some payload => .panic payload
        | none => .look fun v => .done (p.template.all (· == v.node.displayName))
      provide := ExceptT.run do
        c.play (callbackName .invocationProvider) "" false p.script
        return p.invocations }

def toExtension (c : Callbacks) : Extension State Note :=
  { name := c.name
    condition := c.condition?
    beforeAll := c.code? .beforeAll
    afterAll := c.code? .afterAll
    beforeEach := (c.code? .beforeEach).map .code
    afterEach := (c.code? .afterEach).map .code
    beforeTestExecution := c.code? .beforeTestExecution
    afterTestExecution := c.code? .afterTestExecution
    parameterResolver := c.resolver?
    instancePostProcessor := c.onInstance? .instancePostProcessor
    instancePreDestroy := c.onInstance? .instancePreDestroy
    invocationProvider := c.provider?
    watcher := c.watcher? }

end Callbacks

end Script

end TestEngine

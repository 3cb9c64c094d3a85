import TestEngine.Program
import TestEngine.Stream

/-! Methods, and the extensions whose capabilities are called around them. -/

namespace TestEngine

/-- A live instance. Its number tells it from all others of the run. -/
structure TestInstance where
  number : Nat
  content : InstanceContent
  deriving DecidableEq, Repr, Inhabited

/-- What a method is invoked with. -/
structure Invocation where
  instance? : Option TestInstance := none
  arguments : List Value := []

namespace Invocation

def argument (i : Invocation) (index : Nat) : Except TestError Value :=
  match i.arguments[index]? with
  | some v => .ok v
  | none => .error (.configuration ("argument " ++ toString index ++ " requested but only "
      ++ toString i.arguments.length ++ " were resolved"))

def instanceOf (i : Invocation) (typeName : String) : Except TestError TestInstance :=
  match i.instance? with
  | none => .error (.configuration "no test instance is available to a static method")
  | some x =>
    if x.content.typeName = typeName then .ok x
    else .error (.configuration ("test instance is not of type `" ++ typeName ++ "`"))

end Invocation

/-- A method whose body makes an `α`. -/
structure Method (σ ν α : Type) where
  signature : Signature
  body : Invocation → Code σ ν α

namespace Method
variable {σ ν α : Type}

def name (m : Method σ ν α) : String := m.signature.name

def parameters (m : Method σ ν α) : List Parameter := m.signature.parameters

def isStatic (m : Method σ ν α) : Bool := m.signature.isStatic

end Method

/-- Code called before or after each test: an extension's own, or a hook of a class. -/
inductive EachCallback (σ ν : Type) where
  | code (code : Code σ ν Unit)
  | hook (className : String) (method : Method σ ν Unit)

/-- The parameter to be resolved, and the name of the method or constructor that declares it. -/
structure ParameterContext where
  parameter : Parameter
  executable : String
  deriving DecidableEq, Repr, Inhabited

structure ParameterResolver (σ ν : Type) where
  supports : ParameterContext → Code σ ν Bool
  resolve : ParameterContext → Code σ ν Value

/-- Told how tests end. What it does has no bearing on them. -/
structure Watcher (σ ν : Type) where
  disabled : String → Program σ ν Unit := fun _ => .done ()
  successful : Program σ ν Unit := .done ()
  aborted : TestError → Program σ ν Unit := fun _ => .done ()
  failed : TestError → Program σ ν Unit := fun _ => .done ()

/-- One invocation of a template, with extensions of its own. -/
structure TemplateInvocation (ε : Type) where
  displayName : String
  extensions : List ε := []

structure InvocationProvider (σ ν ε : Type) where
  supports : Program σ ν Bool
  provide : Program σ ν (Except TestError (Stream σ ν (TemplateInvocation ε)))

/-- An extension has the capabilities whose field is filled. -/
structure Extension (σ ν : Type) where
  name : String
  condition : Option (Code σ ν Verdict) := none
  beforeAll : Option (Code σ ν Unit) := none
  afterAll : Option (Code σ ν Unit) := none
  beforeEach : Option (EachCallback σ ν) := none
  afterEach : Option (EachCallback σ ν) := none
  beforeTestExecution : Option (Code σ ν Unit) := none
  afterTestExecution : Option (Code σ ν Unit) := none
  parameterResolver : Option (ParameterResolver σ ν) := none
  instancePostProcessor : Option (TestInstance → Code σ ν Unit) := none
  instancePreDestroy : Option (TestInstance → Code σ ν Unit) := none
  invocationProvider : Option (InvocationProvider σ ν (Extension σ ν)) := none
  watcher : Option (Watcher σ ν) := none

namespace Extension
variable {σ ν : Type}

def has (e : Extension σ ν) : Capability → Bool
  | .condition => e.condition.isSome
  | .beforeAll => e.beforeAll.isSome
  | .afterAll => e.afterAll.isSome
  | .beforeEach => e.beforeEach.isSome
  | .afterEach => e.afterEach.isSome
  | .beforeTestExecution => e.beforeTestExecution.isSome
  | .afterTestExecution => e.afterTestExecution.isSome
  | .parameterResolver => e.parameterResolver.isSome
  | .instancePostProcessor => e.instancePostProcessor.isSome
  | .instancePreDestroy => e.instancePreDestroy.isSome
  | .invocationProvider => e.invocationProvider.isSome
  | .watcher => e.watcher.isSome

instance : Registrable (Extension σ ν) := ⟨Extension.name, Extension.has⟩

def beforeEachHook (className : String) (m : Method σ ν Unit) : Extension σ ν :=
  { name := className ++ "::" ++ m.name, beforeEach := some (.hook className m) }

def afterEachHook (className : String) (m : Method σ ν Unit) : Extension σ ν :=
  { name := className ++ "::" ++ m.name, afterEach := some (.hook className m) }

end Extension

def TemplateInvocation.describe {σ ν : Type} (i : TemplateInvocation (Extension σ ν)) : String :=
  Text.record "InvocationContext" [("display_name", Text.quote i.displayName),
    ("extensions", Text.listed (i.extensions.map fun e => Text.quote e.name))]

structure Declared (σ ν : Type) where
  extension : Extension σ ν
  position : Position := .default

end TestEngine

import TestEngine.Extension
import TestEngine.Selection

/-! The nodes handed to the engine, with the code they run. -/

namespace TestEngine

/-- A node made by a test factory. -/
inductive DynamicNode (σ ν : Type) where
  | test (displayName : String) (body : Program σ ν (Except TestError Unit))
  | container (displayName : String) (children : Stream σ ν (DynamicNode σ ν))

namespace DynamicNode
variable {σ ν : Type}

def displayName : DynamicNode σ ν → String
  | .test name _ | .container name _ => name

def describe : DynamicNode σ ν → String
  | .test name _ => Text.record "Test" [("display_name", Text.quote name)]
  | .container name children =>
    Text.record "Container" [("display_name", Text.quote name), ("children", children.describe)]

end DynamicNode

structure TestClass (σ ν : Type) where
  name : String
  /-- In place of the configured lifecycle. -/
  lifecycle : Option Lifecycle := none
  /-- In place of the configured order. -/
  hookOrder : Option HookOrder := none
  /-- Invoked on the instance of the enclosing class, if there is one. -/
  constructor : Method σ ν InstanceContent
  beforeAll : List (Method σ ν Unit) := []
  afterAll : List (Method σ ν Unit) := []
  beforeEach : List (Method σ ν Unit) := []
  afterEach : List (Method σ ν Unit) := []

/-- A method run once for every invocation its providers supply. -/
structure Template (σ ν : Type) where
  method : Method σ ν Unit
  /-- The invocations to run; the others are drawn and passed over. -/
  selection : Option Selection := none
  allowZero : Bool := false

/-- A method that makes a stream of nodes. -/
structure Factory (σ ν : Type) where
  method : Method σ ν (Stream σ ν (DynamicNode σ ν))
  allowZero : Bool := false

inductive Role (σ ν : Type) where
  | engine
  | testClass (c : TestClass σ ν)
  | test (method : Method σ ν Unit)
  | template (t : Template σ ν)
  | factory (f : Factory σ ν)
  | dynamic

namespace Role
variable {σ ν : Type}

def shape : Role σ ν → Shape
  | .engine => .engine
  | .testClass c => .testClass c.name
  | .test m => .test m.signature
  | .template t => .template t.method.signature
  | .factory f => .factory f.method.signature
  | .dynamic => .dynamic

def scope : Role σ ν → Scope
  | .engine => .engine
  | .testClass _ => .testClass
  | .test _ | .template _ | .factory _ => .method
  | .dynamic => .invocation

end Role

/-- A node of a tree of tests, apart from its children. -/
structure Descriptor (σ ν : Type) where
  id : UniqueId
  displayName : String
  kind : NodeKind
  tags : List String := []
  source : Option TestSource := none
  role : Role σ ν
  extensions : List (Declared σ ν) := []
  mode : Option ExecutionMode := none
  /-- Exclusive resources held while the node runs. -/
  locks : List String := []
  timeout : Option Duration := none

namespace Descriptor
variable {σ ν : Type}

def node (d : Descriptor σ ν) : Node :=
  { id := d.id, displayName := d.displayName, kind := d.kind, tags := d.tags, source := d.source,
    shape := d.role.shape }

def testClass? (d : Descriptor σ ν) : Option (TestClass σ ν) :=
  match d.role with
  | .testClass c => some c
  | _ => none

end Descriptor

/-- Hooks in the order they run. Sorting keeps hooks of one name in the order of declaration. -/
def orderHooks {σ ν : Type} (order : HookOrder) (hooks : List (Method σ ν Unit)) :
    List (Method σ ν Unit) :=
  match order with
  | .declaration => hooks
  | .alphanumeric => hooks.mergeSort fun a b => a.name ≤ b.name

end TestEngine

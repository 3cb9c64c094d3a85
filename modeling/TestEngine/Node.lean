import TestEngine.Parameter
import TestEngine.UniqueId

/-! What is known of a node apart from the code it runs: the part shown to listeners and user code. -/

namespace TestEngine

/-- What a node reports as. -/
inductive NodeKind where
  | container
  | test
  /-- A test in its own right that also produces children. -/
  | containerAndTest
  deriving DecidableEq, Repr, Inhabited

namespace NodeKind

def isContainer : NodeKind → Bool
  | .container | .containerAndTest => true
  | .test => false

def isTest : NodeKind → Bool
  | .test | .containerAndTest => true
  | .container => false

def describe : NodeKind → String
  | .container => "Container"
  | .test => "Test"
  | .containerAndTest => "ContainerAndTest"

end NodeKind

inductive TestSource where
  | ofClass (name : String)
  | ofMethod (className : Option String) (method : String)
  | ofFile (path : String) (line : Option Nat)
  deriving DecidableEq, Repr, Inhabited

/-- What a node runs, by name only. -/
inductive Shape where
  | engine
  | testClass (name : String)
  | test (method : Signature)
  | template (method : Signature)
  | factory (method : Signature)
  | dynamic
  deriving DecidableEq, Repr, Inhabited

namespace Shape

def label : Shape → String
  | .engine => "engine"
  | .testClass _ => "class"
  | .test _ => "test"
  | .template _ => "template"
  | .factory _ => "factory"
  | .dynamic => "dynamic"

def className? : Shape → Option String
  | .testClass name => some name
  | _ => none

end Shape

structure Node where
  id : UniqueId
  displayName : String
  kind : NodeKind
  tags : List String := []
  source : Option TestSource := none
  shape : Shape
  deriving DecidableEq, Repr, Inhabited

namespace Node

/-- The nearest class on a path that leads from a node to the root. -/
def enclosingClass? (path : List Node) : Option String := path.findSome? (·.shape.className?)

/-- The method a node runs. A dynamic node runs the one of the node it was made by. -/
def runningMethod? : List Node → Option String
  | [] => none
  | node :: above =>
    match node.shape with
    | .test m | .template m | .factory m => some m.name
    | .dynamic => runningMethod? above
    | .engine | .testClass _ => none

end Node

end TestEngine

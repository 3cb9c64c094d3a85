import TestEngine.Decimal.Shortest
import TestEngine.Node

/-! Values passed to methods, hooks and constructors, and the types that accept them. -/

namespace TestEngine

structure TestInfo where
  displayName : String
  tags : List String
  uniqueId : String
  testClass : Option String
  testMethod : Option String
  deriving DecidableEq, Repr, Inhabited

/-- What an object holds, as far as the engine makes objects itself. -/
inductive ObjectContent where
  | foreign
  | testInfo (info : TestInfo)
  /-- Publishes report entries for this node. -/
  | testReporter (node : Node)
  | repetition (current total : Nat)
  deriving DecidableEq, Repr, Inhabited

/-- An object, equal only to itself: `number` is its identity. -/
structure Object where
  typeName : String
  number : Nat
  content : ObjectContent := .foreign
  deriving Repr, Inhabited

inductive Value where
  | null
  | bool (b : Bool)
  | int (i : Int)
  | float (x : Float)
  | text (s : String)
  | list (items : List Value)
  | object (o : Object)
  deriving Inhabited

namespace Value

def typeName : Value → String
  | .null => "null"
  | .bool _ => "bool"
  | .int _ => "int"
  | .float _ => "float"
  | .text _ => "string"
  | .list _ => "list"
  | .object o => o.typeName

def isNull : Value → Bool
  | .null => true
  | _ => false

def bool? : Value → Option Bool
  | .bool b => some b
  | _ => none

def int? : Value → Option Int
  | .int i => some i
  | _ => none

def float? : Value → Option Float
  | .float x => some x
  | _ => none

def text? : Value → Option String
  | .text s => some s
  | _ => none

def list? : Value → Option (List Value)
  | .list items => some items
  | _ => none

def object? : Value → Option Object
  | .object o => some o
  | _ => none

mutual
/-- Equality of values. As a float, not a number differs from itself. -/
def beq : Value → Value → Bool
  | .null, .null => true
  | .bool a, .bool b => a == b
  | .int a, .int b => a == b
  | .float a, .float b => a == b
  | .text a, .text b => a == b
  | .list as, .list bs => beqList as bs
  | .object a, .object b => a.number == b.number
  | _, _ => false
def beqList : List Value → List Value → Bool
  | [], [] => true
  | a :: as, b :: bs => beq a b && beqList as bs
  | _, _ => false
end

instance : BEq Value := ⟨beq⟩

mutual
/-- The text of a value as shown in names. -/
def render : Value → String
  | .null => "null"
  | .bool b => Text.ofBool b
  | .int i => toString i
  | .float x => Decimal.render x
  | .text s => s
  | .list items => Text.listed (renderList items)
  | .object o => "<" ++ o.typeName ++ ">"
def renderList : List Value → List String
  | [] => []
  | v :: vs => render v :: renderList vs
end

mutual
/-- As `render`, with texts quoted. -/
def describe : Value → String
  | .text s => Text.quote s
  | .list items => Text.listed (describeList items)
  | v => render v
def describeList : List Value → List String
  | [] => []
  | v :: vs => describe v :: describeList vs
end

end Value

def ParamType.accepts (type : ParamType) : Value → Bool
  | .null => !type.isPrimitive
  | v =>
    match type, v with
    | .any, _ | .bool, .bool _ | .int, .int _ | .float, .float _ | .text, .text _ | .list, .list _ => true
    | .object name, .object o => name == o.typeName
    | _, _ => false

/-- One argument. In display names its label stands for its value. -/
structure Argument where
  label : Option String := none
  value : Value
  deriving Inhabited

namespace Argument

instance : BEq Argument := ⟨fun a b => a.label == b.label && a.value == b.value⟩

def values (args : List Argument) : List Value := args.map (·.value)

end Argument

end TestEngine

import TestEngine.Text.Described

/-! Formal parameters of methods and constructors. -/

namespace TestEngine

inductive ParamType where
  | bool | int | float | text | list
  /-- An object whose type name is exactly this one. -/
  | object (typeName : String)
  | any
  deriving DecidableEq, Repr, Inhabited

namespace ParamType

/-- A primitive parameter cannot take null. -/
def isPrimitive : ParamType → Bool
  | .bool | .int | .float => true
  | _ => false

def render : ParamType → String
  | .bool => "bool"
  | .int => "int"
  | .float => "float"
  | .text => "string"
  | .list => "list"
  | .object name => name
  | .any => "any"

def describe : ParamType → String
  | .bool => "Bool"
  | .int => "Int"
  | .float => "Float"
  | .text => "Str"
  | .list => "List"
  | .object name => "Object(" ++ Text.quote name ++ ")"
  | .any => "Any"

end ParamType

/-- A parameter at its position, counted from zero. -/
structure Parameter where
  index : Nat
  name : String
  type : ParamType
  deriving DecidableEq, Repr, Inhabited

namespace Parameter

def render (p : Parameter) : String := p.type.render ++ " " ++ p.name

def describe (p : Parameter) : String :=
  Text.record "Parameter" [("index", toString p.index), ("name", Text.quote p.name), ("ty", p.type.describe)]

/-- Parameters numbered in the order they are declared. -/
def declare (params : List (String × ParamType)) : List Parameter :=
  params.mapIdx fun i (name, type) => ⟨i, name, type⟩

end Parameter

structure Signature where
  name : String
  parameters : List Parameter := []
  isStatic : Bool := false
  deriving DecidableEq, Repr, Inhabited

def Signature.describe (s : Signature) : String :=
  Text.record "Method" [("name", Text.quote s.name),
    ("parameters", Text.listed (s.parameters.map Parameter.describe)),
    ("is_static", Text.ofBool s.isStatic)]

end TestEngine

import TestEngine.Toml.Moment

/-! The values that configuration files hold. -/

namespace TestEngine

namespace Toml

inductive Scalar where
  | text (s : String)
  | integer (i : Int)
  | float (x : Float)
  /-- What is not a number, with the sign it is written with. -/
  | notANumber (negative : Bool)
  | boolean (b : Bool)
  | moment (m : Moment)
  deriving Inhabited

end Toml

inductive Toml where
  | scalar (s : Toml.Scalar)
  | array (items : List Toml)
  /-- Values under keys, the keys ascending and each once. -/
  | table (entries : List (String × Toml))
  deriving Inhabited

namespace Toml

def isTable : Toml → Bool
  | .table _ => true
  | _ => false

/-- Whether a value is an array with a table among its items. -/
def holdsTables : Toml → Bool
  | .array items => items.any isTable
  | _ => false

end Toml

end TestEngine

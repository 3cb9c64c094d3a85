import TestEngine.Dictionary
import TestEngine.Duration

/-! Configuration parameters: texts under text keys, from one table or seen through several. -/

namespace TestEngine

inductive Configuration where
  | entries (table : Dictionary String)
  /-- Every key is looked up in `within` behind `start`. -/
  | prefixed (start : String) (within : Configuration)
  /-- The first layer that has a key gives its value. -/
  | layered (layers : List Configuration)
  deriving Inhabited

namespace Configuration

def empty : Configuration := .entries .empty

def ofList (pairs : List (String × String)) : Configuration := .entries (.ofList pairs)

mutual
def get? : Configuration → String → Option String
  | .entries table, key => table.get? key
  | .prefixed start within, key => within.get? (start ++ key)
  | .layered layers, key => getFirst? layers key
def getFirst? : List Configuration → String → Option String
  | [], _ => none
  | layer :: layers, key =>
    match layer.get? key with
    | some value => some value
    | none => getFirst? layers key
end

def dropStart? : List Char → List Char → Option (List Char)
  | [], key => some key
  | _ :: _, [] => none
  | c :: start, k :: key => if c = k then dropStart? start key else none

mutual
/-- All keys, ascending and each once. -/
def keys : Configuration → List String
  | .entries table => table.keys
  | .prefixed start within =>
    within.keys.filterMap fun key => (dropStart? start.toList key.toList).map String.ofList
  | .layered layers => sortDistinct (keysOfAll layers)
def keysOfAll : List Configuration → List String
  | [] => []
  | layer :: layers => layer.keys ++ keysOfAll layers
end

/-- A value without the blanks around it. -/
def trimmed? (c : Configuration) (key : String) : Option (List Char) :=
  (c.get? key).map fun value => Text.trim value.toList

/-- A value read by `read`. One that cannot be read counts as absent. -/
def parsed? {α : Type} (c : Configuration) (read : String → Option α) (key : String) : Option α :=
  (c.trimmed? key).bind fun value => read (String.ofList value)

/-- The words for true and false in any case of ASCII letters. -/
def readBool (word : String) : Option Bool :=
  match word.map Char.toLower with
  | "true" => some true
  | "false" => some false
  | _ => none

def bool? (c : Configuration) (key : String) : Option Bool := c.parsed? readBool key

def nat? (c : Configuration) (key : String) : Option Nat :=
  (c.trimmed? key).bind Decimal.word?

def duration? (c : Configuration) (key : String) : Option Duration :=
  (c.get? key).bind Duration.parse?

/-- Whether a product wraps around where the value is read as a duration. -/
def overflows (c : Configuration) (key : String) : Bool := (c.get? key).any Duration.overflows

end Configuration

end TestEngine

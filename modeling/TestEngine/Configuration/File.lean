import TestEngine.Configuration.Basic
import TestEngine.EngineError
import TestEngine.Toml.Document
import TestEngine.Toml.Printer

/-! Configuration read from files. Nested tables become keys with points, and every value a text. -/

namespace TestEngine

/-- A library for files of this form: how it reads the text of one, and how it writes a value. -/
structure Toml.Library where
  pairs? : String → Option (List (String × Toml))
  render : Toml → String

/-- The library that is used. -/
def Toml.library : Toml.Library := ⟨Toml.pairs?, Toml.render⟩

namespace Configuration

section
variable (toml : Toml.Library)

/-- The text of an item of an array: as it is written, but for the quotes of a string. -/
def itemText : Toml → String
  | .scalar (.text s) => s
  | v => toml.render v

mutual
/-- Adds what a value holds under its key. Later texts take the place of earlier ones with the same key,
and an empty table adds nothing. -/
def flatten (key : String) (table : Dictionary String) : Toml → Dictionary String
  | .table nested => flattenAll key table nested
  | .array items => table.insert key (",".intercalate (items.map (itemText toml)))
  | .scalar (.text s) => table.insert key s
  | .scalar s => table.insert key (toml.render (.scalar s))
def flattenAll (key : String) (table : Dictionary String) :
    List (String × Toml) → Dictionary String
  | [] => table
  | (k, v) :: rest => flattenAll key (flatten (key ++ "." ++ k) table v) rest
end

def versionKey : String := "ver"

/-- The version that a file asks for. It must be a string, and be there once at most. -/
def requiredVersion : List (String × Toml) → Except EngineError (Option String)
  | [] => .ok none
  | [(_, .scalar (.text version))] => .ok (some version)
  | _ => .error .malformed

/-- What the pairs of a file tell, unless they ask for another version. At the top the last value of a key counts. -/
def ofPairs (pairs : List (String × Toml)) : Except EngineError Configuration := do
  let (version, others) := pairs.partition (·.1 == versionKey)
  match ← requiredVersion version with
  | some version => if version ≠ engineVersion then throw (.versionMismatch version)
  | none => pure ()
  return .entries
    ((Dictionary.ofList others).entries.foldl (fun table (key, v) => flatten toml key table v) .empty)

/-- Reads the text of a file. -/
def read (text : String) : Except EngineError Configuration := do
  let some pairs := toml.pairs? text | .error .malformed
  ofPairs toml pairs

end

def ofText (text : String) : Except EngineError Configuration := read Toml.library text

def ofFile : Option String → Except EngineError Configuration
  | none => .error .unreadable
  | some text => ofText text

end Configuration

end TestEngine

import TestEngine.Text.Quoted

/-! Descriptions of values for a reader: lists in brackets, records with named fields. -/

namespace TestEngine.Text

def listed (items : List String) : String := "[" ++ ", ".intercalate items ++ "]"

def record (name : String) (fields : List (String × String)) : String :=
  name ++ " \x7b " ++ ", ".intercalate (fields.map fun (k, v) => k ++ ": " ++ v) ++ " \x7d"

def mapping (pairs : List (String × String)) : String :=
  "\x7b" ++ ", ".intercalate (pairs.map fun (k, v) => quote k ++ ": " ++ quote v) ++ "\x7d"

def ofBool (b : Bool) : String := if b then "true" else "false"

end TestEngine.Text

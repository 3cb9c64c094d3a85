import TestEngine.Decimal.Shortest
import TestEngine.Toml.Basic
import TestEngine.Text.Described

/-!
The text of a value in the format of configuration files. A table is written as lines, its headings where
they are needed first.
-/

namespace TestEngine.Toml

/-- Where a value is written: at the top, under a key, or as an item. `first` says that nothing has been
written of the table or array around it. -/
inductive Place where
  | top
  | entry (key : String) (around : Place) (first : Bool)
  | item (around : Place) (first : Bool)
  deriving Inhabited

/-- Control characters and what would end the string are written as escapes. -/
def escape (c : Char) : String :=
  if c = '\x08' then "\\b"
  else if c = '\t' then "\\t"
  else if c = '\n' then "\\n"
  else if c = '\x0c' then "\\f"
  else if c = '\r' then "\\r"
  else if c = '"' then "\\\""
  else if c = '\\' then "\\\\"
  else if c.toNat < 0x20 || c = '\x7f' then
    "\\u" ++ String.ofList ((Nat.toDigits 16 (0x10000 + c.toNat)).tail.map Char.toUpper)
  else String.singleton c

def quoted (s : String) : String := "\"" ++ "".intercalate (s.toList.map escape) ++ "\""

/-- Keys of letters, digits, minus signs and underscores need no quotes. -/
def renderKey (key : String) : String :=
  if !key.isEmpty && key.toList.all (fun c => c.isAlphanum || c == '-' || c == '_') then key
  else quoted key

/-- A float has decimals, or is infinite. -/
def renderFloat (x : Float) : String :=
  let text := Decimal.render x
  if x.isFinite && !text.toList.contains '.' then text ++ ".0" else text

def Scalar.render : Scalar → String
  | .text s => quoted s
  | .integer i => toString i
  | .float x => renderFloat x
  | .notANumber negative => if negative then "-nan" else "nan"
  | .boolean b => Text.ofBool b
  | .moment m => m.render

namespace Place

def path : Place → List String
  | .top => []
  | .entry key around _ => around.path ++ [key]
  | .item around _ => around.path

/-- Whether a heading here has an empty line in front. -/
def isSeparated : Place → Bool
  | .top => false
  | .entry _ _ first => !first
  | .item (.entry _ _ first) firstItem => !firstItem || !first
  | .item _ firstItem => !firstItem

def isItem : Place → Bool
  | .item _ _ => true
  | _ => false

def ownHeading (p : Place) : String :=
  let keys := ".".intercalate (p.path.map renderKey)
  (if p.isSeparated then "\n" else "")
    ++ (if p.isItem then "[[" ++ keys ++ "]]" else "[" ++ keys ++ "]") ++ "\n"

/-- The headings of the items around a place that have none yet. Tables around it need no heading. -/
def headingsAround : Place → String
  | .entry _ (.item (.entry key around firstEntry) firstItem) true =>
    (if firstItem then headingsAround (.entry key around firstEntry) else "")
      ++ ownHeading (.item (.entry key around firstEntry) firstItem)
  | .entry _ around true => headingsAround around
  | _ => ""

/-- All headings that are needed before the first line of a table. -/
def headings : Place → String
  | .top => ""
  | .item around true => headingsAround around ++ ownHeading (.item around true)
  | p => headingsAround p ++ ownHeading p

/-- What stands in front of a value that is written in a line. -/
def lead : Place → String
  | .top => ""
  | .entry key around first => (if first then around.headings else "") ++ renderKey key ++ " = "
  | .item around first => if first then around.lead ++ "[" else ", "

def lineEnd : Place → String
  | .entry _ _ _ => "\n"
  | _ => ""

end Place

mutual
def printAt (p : Place) : Toml → String
  | .scalar s => p.lead ++ s.render ++ p.lineEnd
  | .array items =>
    match items with
    | [] => p.lead ++ "[]" ++ p.lineEnd
    | i :: is =>
      printAt (.item p true) i ++ printItems p is
        ++ (if i.isTable then "" else "]" ++ p.lineEnd)
  | .table entries =>
    let (plain, first) := printEntries p true (fun v => !v.isTable && !v.holdsTables) entries
    let (arrays, first) := printEntries p first holdsTables entries
    let (tables, first) := printEntries p first isTable entries
    plain ++ arrays ++ tables ++ (if first then p.headings else "")
def printItems (p : Place) : List Toml → String
  | [] => ""
  | i :: is => printAt (.item p false) i ++ printItems p is
/-- The entries of the table at `p` that are to be written now, and whether nothing has been written of
the table then. -/
def printEntries (p : Place) (first : Bool) (now : Toml → Bool) :
    List (String × Toml) → String × Bool
  | [] => ("", first)
  | (key, v) :: rest =>
    if now v then
      let text := printAt (.entry key p first) v
      let (more, first) := printEntries p false now rest
      (text ++ more, first)
    else printEntries p first now rest
end

def render (v : Toml) : String := printAt .top v

end TestEngine.Toml

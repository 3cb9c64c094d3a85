import TestEngine.Text.Blank
import TestEngine.Text.CaseFolding
import TestEngine.Text.DecimalDigit
import TestEngine.Text.WordCharacter

/-! Classes of characters, as regular expressions name and combine them. -/

namespace TestEngine.Regex

inductive NamedClass where
  | digit | space | word
  deriving DecidableEq, Repr

structure CharClass where
  contains : Char → Bool
  /-- Whether bytes that are no characters belong to it. Only classes that do without Unicode hold
  such bytes, and no expression over text may use one that does. -/
  foreign : Bool := false

inductive ClassOperator where
  | intersection | difference | symmetricDifference
  deriving DecidableEq, Repr

namespace CharClass

def empty : CharClass := { contains := fun _ => false }

def range (first last : Char) : CharClass := { contains := fun c => first ≤ c && c ≤ last }

def single (d : Char) : CharClass := { contains := (· == d) }

def ofSet (s : CharSet) : CharClass := { contains := s.contains }

def union (a b : CharClass) : CharClass :=
  { contains := fun c => a.contains c || b.contains c, foreign := a.foreign || b.foreign }

/-- All other characters; without Unicode, all other bytes. -/
def complement (unicode : Bool) (a : CharClass) : CharClass :=
  if unicode then { contains := fun c => !a.contains c }
  else { contains := fun c => c.toNat < 128 && !a.contains c, foreign := !a.foreign }

def combine : ClassOperator → CharClass → CharClass → CharClass
  | .intersection, a, b =>
    { contains := fun c => a.contains c && b.contains c, foreign := a.foreign && b.foreign }
  | .difference, a, b =>
    { contains := fun c => a.contains c && !b.contains c, foreign := a.foreign && !b.foreign }
  | .symmetricDifference, a, b =>
    { contains := fun c => a.contains c != b.contains c, foreign := a.foreign != b.foreign }

/-- With every character, those it has in common the case folding with. -/
def ignoringCase (unicode : Bool) (a : CharClass) : CharClass :=
  if unicode then { a with contains := fun c => (Text.sameFolded c).any a.contains }
  else { a with contains := fun c => a.contains c.toLower || a.contains c.toUpper }

def ofNamed (unicode : Bool) : NamedClass → CharClass
  | .digit => if unicode then ofSet .decimalDigit else range '0' '9'
  | .space => if unicode then ofSet .blank else ofSet [(9, 13), (32, 32)]
  | .word =>
    if unicode then ofSet .wordCharacter
    else ofSet [(0x30, 0x39), (0x41, 0x5a), (0x5f, 0x5f), (0x61, 0x7a)]

/-- The classes of ASCII that have a name in brackets and colons. -/
def ofAsciiName? : String → Option CharClass
  | "alnum" => some (ofSet [(0x30, 0x39), (0x41, 0x5a), (0x61, 0x7a)])
  | "alpha" => some (ofSet [(0x41, 0x5a), (0x61, 0x7a)])
  | "ascii" => some (ofSet [(0, 0x7f)])
  | "blank" => some (ofSet [(9, 9), (32, 32)])
  | "cntrl" => some (ofSet [(0, 0x1f), (0x7f, 0x7f)])
  | "digit" => some (ofSet [(0x30, 0x39)])
  | "graph" => some (ofSet [(0x21, 0x7e)])
  | "lower" => some (ofSet [(0x61, 0x7a)])
  | "print" => some (ofSet [(0x20, 0x7e)])
  | "punct" => some (ofSet [(0x21, 0x2f), (0x3a, 0x40), (0x5b, 0x60), (0x7b, 0x7e)])
  | "space" => some (ofSet [(9, 13), (32, 32)])
  | "upper" => some (ofSet [(0x41, 0x5a)])
  | "word" => some (ofSet [(0x30, 0x39), (0x41, 0x5a), (0x5f, 0x5f), (0x61, 0x7a)])
  | "xdigit" => some (ofSet [(0x30, 0x39), (0x41, 0x46), (0x61, 0x66)])
  | _ => none

end CharClass

end TestEngine.Regex

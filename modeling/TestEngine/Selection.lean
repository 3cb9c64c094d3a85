import TestEngine.Decimal.Whole
import TestEngine.TestError
import TestEngine.Text.Blank
import TestEngine.Text.Split

/-! Selections of invocations by number, such as `1,3-5`. -/

namespace TestEngine

/-- Ranges of numbers, both ends included; a range whose ends are reversed is empty. -/
structure Selection where
  ranges : List (Nat × Nat) := []
  deriving DecidableEq, Repr, Inhabited

namespace Selection

def addRange (s : Selection) (first last : Nat) : Selection := ⟨s.ranges ++ [(first, last)]⟩

def addIndex (s : Selection) (index : Nat) : Selection := s.addRange index index

def contains (s : Selection) (index : Nat) : Bool :=
  s.ranges.any fun r => r.1 ≤ index && index ≤ r.2

def max? (s : Selection) : Option Nat :=
  ((s.ranges.filter fun r => r.1 ≤ r.2).map (·.2)).max?

/-- One number, or two around the first `-`. -/
def parsePart? (part : List Char) : Option (Nat × Nat) :=
  match Text.splitOnce '-' part with
  | some (first, last) => do
    return (← Decimal.word? (Text.trim first), ← Decimal.word? (Text.trim last))
  | none => (Decimal.word? part).map fun index => (index, index)

def invalid (text : String) : TestError :=
  .configuration ("Invalid invocation selection `" ++ text
    ++ "`: expected indices or ranges such as `1,3-5`")

/-- Reads parts separated by commas; blank parts are passed over. -/
def parse (text : String) : Except TestError Selection :=
  let parts := ((Text.split ',' text.toList).map Text.trim).filter (!·.isEmpty)
  match parts.mapM parsePart? with
  | some ranges => .ok ⟨ranges⟩
  | none => .error (invalid text)

end Selection

end TestEngine

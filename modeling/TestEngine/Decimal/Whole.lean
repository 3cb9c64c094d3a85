import TestEngine.Decimal.Power

/-! Whole numbers read from decimal digits. -/

namespace TestEngine.Decimal

def digits? (n : Nat) : List Char → Option Nat
  | [] => some n
  | c :: cs => if c.isDigit then digits? (n * 10 + (c.toNat - '0'.toNat)) cs else none

def wordLimit : Nat := twoTo 64

/-- Reads at least one digit, which one `+` may precede; the number must fit a word. -/
def word? (cs : List Char) : Option Nat :=
  let digits := match cs with
    | '+' :: rest => rest
    | _ => cs
  if digits.isEmpty then none else (digits? 0 digits).filter (· < wordLimit)

end TestEngine.Decimal

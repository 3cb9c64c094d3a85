/-! Hexadecimal digits and numbers. -/

namespace TestEngine.Hex

def digit (n : Nat) : Char :=
  if n < 10 then Char.ofNat ('0'.toNat + n) else Char.ofNat ('A'.toNat + (n - 10))

def value? (c : Char) : Option Nat :=
  if '0' ≤ c ∧ c ≤ '9' then some (c.toNat - '0'.toNat)
  else if 'A' ≤ c ∧ c ≤ 'F' then some (c.toNat - 'A'.toNat + 10)
  else if 'a' ≤ c ∧ c ≤ 'f' then some (c.toNat - 'a'.toNat + 10)
  else none

def digits? (n : Nat) : List Char → Option Nat
  | [] => some n
  | c :: cs => (value? c).bind fun d => digits? (n * 16 + d) cs

/-- Reads at least one digit, which one `+` may precede. -/
def number? : List Char → Option Nat
  | [] => none
  | '+' :: c :: cs => digits? 0 (c :: cs)
  | c :: cs => digits? 0 (c :: cs)

end TestEngine.Hex

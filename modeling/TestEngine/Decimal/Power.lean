/-! Powers of the bases that numbers are written in. -/

namespace TestEngine.Decimal

def tenTo (n : Nat) : Nat := Nat.pow 10 n

def twoTo (n : Nat) : Nat := Nat.pow 2 n

end TestEngine.Decimal

import TestEngine.Decimal.Whole

/-! Floating-point numbers read from decimal text: the nearest one, and of two that are as near the one
with the even mantissa. -/

namespace TestEngine.Decimal

/-- `num / den` as a whole number, rounded to the nearest, a half to the even one. -/
def roundHalfEven (num den : Nat) : Nat :=
  let q := num / den
  let twice := 2 * (num % den)
  if twice < den || (twice = den && q % 2 = 0) then q else q + 1

/-- The greatest power of two that is at most `num / den`, as an exponent. -/
def binaryMagnitude (num den : Nat) : Int :=
  let estimate : Int := (num.log2 : Int) - den.log2
  let up := twoTo estimate.toNat
  let down := twoTo (-estimate).toNat
  if den * up ≤ num * down then estimate else estimate - 1

/-- The bits of the float nearest to a positive number `num / den`. A mantissa has 53 bits, fewer where
the exponent is the least. One that rounds up to 54 bits carries into the exponent, and a number beyond
the range of floats becomes infinite. -/
def nearestBits (num den : Nat) : Nat :=
  let exponent := max (binaryMagnitude num den - 52) (-1074)
  let mantissa :=
    if 0 ≤ exponent then roundHalfEven num (den * twoTo exponent.toNat)
    else roundHalfEven (num * twoTo (-exponent).toNat) den
  min ((exponent + 1074).toNat * twoTo 52 + mantissa) (2047 * twoTo 52)

/-- The float nearest to `mantissa * 10 ^ exponent`. Far beyond the range no power is formed. -/
def nearest (mantissa : Nat) (exponent : Int) : Float :=
  let magnitude := exponent + (Nat.toDigits 10 mantissa).length
  if mantissa = 0 || magnitude < -400 then 0.0
  else if 400 < magnitude then Float.ofBits (UInt64.ofNat (2047 * twoTo 52))
  else if 0 ≤ exponent then
    Float.ofBits (UInt64.ofNat (nearestBits (mantissa * tenTo exponent.toNat) 1))
  else Float.ofBits (UInt64.ofNat (nearestBits mantissa (tenTo (-exponent).toNat)))

def sign (cs : List Char) : Bool × List Char :=
  match cs with
  | '-' :: rest => (true, rest)
  | '+' :: rest => (false, rest)
  | _ => (false, cs)

/-- The exponent behind an `e`; zero if nothing follows. -/
def exponent? : List Char → Option Int
  | [] => some 0
  | c :: cs =>
    if c = 'e' || c = 'E' then
      let (negative, digits) := sign cs
      if digits.isEmpty then none
      else (digits? 0 digits).map fun n => if negative then -(n : Int) else n
    else none

/-- A number without a sign: digits with at most one point among them, and an exponent. -/
def unsigned? (cs : List Char) : Option Float := do
  let whole := cs.takeWhile Char.isDigit
  let rest := cs.dropWhile Char.isDigit
  let (fraction, rest) := match rest with
    | '.' :: rest => (rest.takeWhile Char.isDigit, rest.dropWhile Char.isDigit)
    | _ => ([], rest)
  if whole.isEmpty && fraction.isEmpty then none
  else
    let mantissa ← digits? 0 (whole ++ fraction)
    let exponent ← exponent? rest
    return nearest mantissa (exponent - fraction.length)

/-- Reads a float; words stand for what no digits write. -/
def float? (cs : List Char) : Option Float :=
  let (negative, rest) := sign cs
  let magnitude :=
    match String.ofList (rest.map Char.toLower) with
    | "inf" | "infinity" => some (1.0 / 0.0)
    | "nan" => some (0.0 / 0.0)
    | _ => unsigned? rest
  magnitude.map fun x => if negative then -x else x

end TestEngine.Decimal

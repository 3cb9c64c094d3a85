import TestEngine.Decimal.Power

/-!
The shortest decimal text of a binary floating-point number: the fewest digits that read back as the
same number, and of those the nearest to it, written without an exponent.
-/

namespace TestEngine.Decimal

/-- A positive number `mantissa * 2 ^ exponent`, with the share of the gap below it that rounds
to it: the gap halves where the mantissa is the least of its binade. -/
structure Binary where
  mantissa : Nat
  exponent : Int
  atBinadeStart : Bool

structure Digits where
  digits : Nat
  exponent : Int
  deriving DecidableEq, Repr

private def scale (n : Nat) (exponent : Int) : Nat × Nat :=
  if 0 ≤ exponent then (n * twoTo exponent.toNat, 1) else (n, twoTo (-exponent).toNat)

namespace Binary

/-- Numerators, over one denominator, of the number and of the ends of the interval that rounds to it. -/
def bounds (b : Binary) : Nat × Nat × Nat × Nat :=
  let (unit, den) := scale 1 (b.exponent - 2)
  let low := if b.atBinadeStart then 1 else 2
  ((4 * b.mantissa - low) * unit, 4 * b.mantissa * unit, (4 * b.mantissa + 2) * unit, den)

/-- Whether `d` reads back as `b`. The ends belong to the interval if the mantissa is even. -/
def reads (b : Binary) (d : Digits) : Bool :=
  let (low, _, high, den) := b.bounds
  let up := tenTo d.exponent.toNat
  let down := tenTo (-d.exponent).toNat
  let value := d.digits * up * den
  if b.mantissa % 2 = 0 then low * down ≤ value && value ≤ high * down
  else low * down < value && value < high * down

def distance (b : Binary) (d : Digits) : Nat :=
  let (_, value, _, den) := b.bounds
  let mine := value * tenTo (-d.exponent).toNat
  let other := d.digits * tenTo d.exponent.toNat * den
  if mine ≤ other then other - mine else mine - other

/-- The multiples of `10 ^ exponent` next to `b` that read back as `b`, nearest first. -/
def candidate? (b : Binary) (exponent : Int) : Option Digits :=
  let (_, value, _, den) := b.bounds
  let below := value * tenTo (-exponent).toNat / (den * tenTo exponent.toNat)
  let low : Digits := ⟨below, exponent⟩
  let high : Digits := ⟨below + 1, exponent⟩
  match b.reads low, b.reads high with
  | true, true => if b.distance low ≤ b.distance high then some low else some high
  | true, false => some low
  | false, true => some high
  | false, false => none

/-- How many decimal digits the whole part of `num / den` has, or minus the number of zeros
behind the point if it has none. -/
def magnitude (num den : Nat) : Int :=
  let whole := num / den
  if 0 < whole then (Nat.toDigits 10 whole).length
  else Int.negOfNat ((Nat.toDigits 10 ((den - 1) / num)).length - 1)

/-- The first of `count` ever finer grids that holds digits reading back as `b`. -/
def search (b : Binary) (exponent : Int) : Nat → Option Digits
  | 0 => none
  | count + 1 =>
    match b.candidate? exponent with
    | some d => some d
    | none => search b (exponent - 1) count

/-- Twenty grids are enough: seventeen digits always read back. -/
def shortest (b : Binary) : Digits :=
  let (_, value, _, den) := b.bounds
  (search b (magnitude value den) 20).getD ⟨0, 0⟩

end Binary

/-- Digits written out in full, the point only where digits follow it. -/
def Digits.render (d : Digits) : String :=
  let text := Nat.toDigits 10 d.digits
  if 0 ≤ d.exponent then String.ofList (text ++ List.replicate d.exponent.toNat '0')
  else
    let places := (-d.exponent).toNat
    let padded := List.replicate (places + 1 - text.length) '0' ++ text
    let whole := padded.take (padded.length - places)
    let fraction := (padded.drop (padded.length - places)).reverse.dropWhile (· == '0')
    if fraction.isEmpty then String.ofList whole
    else String.ofList (whole ++ '.' :: fraction.reverse)

def fields (x : Float) : Bool × Nat × Nat :=
  let bits := x.toBits.toNat
  (bits / twoTo 63 == 1, bits / twoTo 52 % twoTo 11, bits % twoTo 52)

def ofFields (exponent fraction : Nat) : Binary :=
  if exponent = 0 then ⟨fraction, -1074, false⟩
  else ⟨twoTo 52 + fraction, (exponent : Int) - 1075, fraction == 0 && 1 < exponent⟩

/-- Shortest text of a double, with `NaN`, `inf`, and the sign of a negative zero. -/
def render (x : Float) : String :=
  let (negative, exponent, fraction) := fields x
  if exponent = 2047 then
    if fraction = 0 then (if negative then "-inf" else "inf") else "NaN"
  else
    let body := if exponent = 0 ∧ fraction = 0 then "0" else (ofFields exponent fraction).shortest.render
    if negative then "-" ++ body else body

end TestEngine.Decimal

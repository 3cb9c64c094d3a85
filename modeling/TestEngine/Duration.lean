import TestEngine.Decimal.Whole
import TestEngine.Text.Blank

/-! Spans of time, as configured and as shown. -/

namespace TestEngine

structure Duration where
  nanoseconds : Nat
  deriving DecidableEq, Repr, Inhabited

namespace Duration

def ofMilliseconds (n : Nat) : Duration := ⟨n * 1000000⟩

def ofSeconds (n : Nat) : Duration := ⟨n * 1000000000⟩

def parts (d : Duration) : Nat × Nat := (d.nanoseconds / 1000000000, d.nanoseconds % 1000000000)

/-- `n / 10 ^ places` with only the decimals it needs. -/
def decimal (n places : Nat) : String :=
  let fraction := Nat.toDigits 10 (n % Decimal.tenTo places)
  let padded := List.replicate (places - fraction.length) '0' ++ fraction
  let shown := (padded.reverse.dropWhile (· == '0')).reverse
  let whole := toString (n / Decimal.tenTo places)
  if places = 0 || shown.isEmpty then whole else whole ++ "." ++ String.ofList shown

/-- Shown in the largest unit of which the span holds at least one, or in nanoseconds. -/
def render (d : Duration) : String :=
  if 1000000000 ≤ d.nanoseconds then decimal d.nanoseconds 9 ++ "s"
  else if 1000000 ≤ d.nanoseconds then decimal d.nanoseconds 6 ++ "ms"
  else if 1000 ≤ d.nanoseconds then decimal d.nanoseconds 3 ++ "µs"
  else decimal d.nanoseconds 0 ++ "ns"

/-- A number and the unit behind it, blanks allowed around and between. -/
def written? (text : String) : Option (Nat × String) :=
  let cs := Text.trim text.toList
  (Decimal.word? (cs.takeWhile Char.isDigit)).map fun n =>
    (n, String.ofList (Text.trim (cs.dropWhile Char.isDigit)))

/-- Reads `250ms`, `5s`, `2m`, or a bare number of seconds. The seconds of minutes are a product of
words, which wraps around. -/
def parse? (text : String) : Option Duration :=
  match written? text with
  | none => none
  | some (n, unit) =>
    match unit with
    | "ms" => some (ofMilliseconds n)
    | "" | "s" => some (ofSeconds n)
    | "m" => some (ofSeconds (n * 60 % Decimal.wordLimit))
    | _ => none

/-- Whether the text gives so many minutes that no word holds their seconds. -/
def overflows (text : String) : Bool :=
  match written? text with
  | some (n, "m") => Decimal.wordLimit ≤ n * 60
  | _ => false

end Duration

end TestEngine

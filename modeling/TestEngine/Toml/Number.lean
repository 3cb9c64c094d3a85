import TestEngine.Decimal.Nearest
import TestEngine.Toml.Basic
import TestEngine.Toml.Token

/-! Numbers in configuration files. A number may be spread over several tokens. -/

namespace TestEngine.Toml

/-- How digits may be written. -/
structure DigitRule where
  radix : Nat
  sign : Bool
  leadingZeros : Bool

namespace DigitRule

def isDigit (r : DigitRule) (c : Char) : Bool := (Hex.value? c).any (· < r.radix)

/-- Reads digits behind `before`, the character read last; `zero` tells whether the first one was a
zero. An underscore may stand between two digits. -/
def more? (r : DigitRule) (before : Char) (zero : Bool) : List Char → Option (List Char × List Char)
  | [] => if before = '_' then none else some ([], [])
  | c :: cs =>
    if r.isDigit c then
      if zero && !r.leadingZeros then none
      else (r.more? c zero cs).map fun (digits, rest) => (c :: digits, rest)
    else if c = '_' && before ≠ '_' then r.more? c zero cs
    else if before = '_' then none
    else some ([], c :: cs)

/-- Whether there is a minus sign, the digits, and what follows them. -/
def read? (r : DigitRule) (cs : List Char) : Option (Bool × List Char × List Char) :=
  let (negative, cs) := match cs with
    | '-' :: rest => if r.sign then (true, rest) else (false, cs)
    | _ => (false, cs)
  match cs with
  | c :: cs =>
    if r.isDigit c then
      (r.more? c (c = '0') cs).map fun (digits, rest) => (negative, c :: digits, rest)
    else none
  | [] => none

end DigitRule

def wholeDigits : DigitRule := ⟨10, true, false⟩

/-- The digits behind a point, or behind a plus sign. -/
def fractionDigits : DigitRule := ⟨10, false, true⟩

def exponentDigits : DigitRule := ⟨10, true, true⟩

def ofDigits (radix : Nat) (digits : List Char) : Nat :=
  digits.foldl (fun n c => n * radix + (Hex.value? c).getD 0) 0

/-- Integers have 64 bits. -/
def integer? (r : DigitRule) (cs : List Char) : Option Scalar :=
  match r.read? cs with
  | some (negative, digits, []) =>
    let n := ofDigits r.radix digits
    let i := if negative then -(n : Int) else n
    if -(Decimal.twoTo 63 : Int) ≤ i && i < Decimal.twoTo 63 then some (.integer i) else none
  | _ => none

/-- The exponent of a float, and the tokens behind it. A plus sign is a token of its own. -/
def exponent? (cs : List Char) (ts : List Token) : Option (Int × List Token) :=
  let signed (read : Option (Bool × List Char × List Char)) (ts : List Token) :=
    match read with
    | some (negative, digits, []) =>
      some (if negative then -(ofDigits 10 digits : Int) else ofDigits 10 digits, ts)
    | _ => none
  match cs with
  | [] => some (0, ts)
  | [e] =>
    if e = 'e' || e = 'E' then
      match ts with
      | .plus :: .bare word :: ts | .bare word :: ts => signed (fractionDigits.read? word) ts
      | _ => none
    else none
  | e :: cs => if e = 'e' || e = 'E' then signed (exponentDigits.read? cs) ts else none

/-- A float from its whole part with what follows in one token, and the word behind its point if there
is one. Infinity must be spelt out. -/
def float? (word : List Char) (behind : Option (List Char)) (ts : List Token) :
    Option (Scalar × List Token) := do
  let (negative, whole, rest) ← wholeDigits.read? word
  let (fraction, rest) ← match behind with
    | none => some ([], rest)
    | some behind =>
      if rest.isEmpty then (fractionDigits.read? behind).map fun (_, digits, rest) => (digits, rest)
      else none
  let (exponent, ts) ← exponent? rest ts
  let x := Decimal.nearest (ofDigits 10 (whole ++ fraction)) (exponent - fraction.length)
  if x.isFinite then return (.float (if negative then -x else x), ts) else none

def number? (word : List Char) (ts : List Token) : Option (Scalar × List Token) :=
  match word with
  | '0' :: 'x' :: digits => (integer? ⟨16, false, true⟩ digits).map (·, ts)
  | '0' :: 'o' :: digits => (integer? ⟨8, false, true⟩ digits).map (·, ts)
  | '0' :: 'b' :: digits => (integer? ⟨2, false, true⟩ digits).map (·, ts)
  | _ =>
    if word.contains 'e' || word.contains 'E' then float? word none ts
    else
      match ts with
      | .period :: .bare behind :: ts => float? word (some behind) ts
      | .period :: _ => none
      | _ =>
        match String.ofList word with
        | "inf" => some (.float (1.0 / 0.0), ts)
        | "-inf" => some (.float (-1.0 / 0.0), ts)
        | "nan" => some (.notANumber false, ts)
        | "-nan" => some (.notANumber true, ts)
        | _ => (integer? wholeDigits word).map (·, ts)

end TestEngine.Toml

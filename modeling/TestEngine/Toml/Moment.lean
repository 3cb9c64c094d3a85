import TestEngine.Decimal.Whole

/-! Dates, times of day, and both together, as they stand in configuration files. -/

namespace TestEngine.Toml

structure Date where
  year : Nat
  month : Nat
  day : Nat
  deriving DecidableEq, Repr, Inhabited

structure TimeOfDay where
  hour : Nat
  minute : Nat
  second : Nat
  nanosecond : Nat
  deriving DecidableEq, Repr, Inhabited

inductive Offset where
  | zulu
  | hours (hours : Int) (minutes : Nat)
  deriving DecidableEq, Repr, Inhabited

structure Moment where
  date : Option Date
  time : Option TimeOfDay
  offset : Option Offset
  deriving DecidableEq, Repr, Inhabited

/-- A number in at least `width` digits. -/
def padded (width n : Nat) : List Char :=
  let digits := Nat.toDigits 10 n
  List.replicate (width - digits.length) '0' ++ digits

namespace Date

def render (d : Date) : List Char :=
  padded 4 d.year ++ '-' :: padded 2 d.month ++ '-' :: padded 2 d.day

end Date

namespace TimeOfDay

/-- Only the decimals of a second that are needed are written. -/
def render (t : TimeOfDay) : List Char :=
  let fraction := ((padded 9 t.nanosecond).reverse.dropWhile (· == '0')).reverse
  padded 2 t.hour ++ ':' :: padded 2 t.minute ++ ':' :: padded 2 t.second
    ++ (if fraction.isEmpty then [] else '.' :: fraction)

end TimeOfDay

namespace Offset

def render : Offset → List Char
  | .zulu => ['Z']
  | .hours h m => (if h < 0 then '-' else '+') :: padded 2 h.natAbs ++ ':' :: padded 2 m

end Offset

namespace Moment

def render (m : Moment) : String :=
  let date := m.date.elim [] Date.render
  let time := m.time.elim [] TimeOfDay.render
  let joint := if m.date.isSome && m.time.isSome then ['T'] else []
  String.ofList (date ++ joint ++ time ++ m.offset.elim [] Offset.render)

/-- A number in exactly `width` digits. -/
def number? (width : Nat) (cs : List Char) : Option (Nat × List Char) :=
  let digits := cs.take width
  if digits.length < width then none
  else (Decimal.digits? 0 digits).map (·, cs.drop width)

def after? (c : Char) : List Char → Option (List Char)
  | d :: cs => if d = c then some cs else none
  | [] => none

def date? (cs : List Char) : Option (Date × List Char) := do
  let (year, cs) ← number? 4 cs
  let (month, cs) ← number? 2 (← after? '-' cs)
  let (day, cs) ← number? 2 (← after? '-' cs)
  if 1 ≤ month && month ≤ 12 && 1 ≤ day && day ≤ 31 then return (⟨year, month, day⟩, cs) else none

/-- The decimals of a second in nanoseconds. Those beyond the ninth are passed over. -/
def fraction? (cs : List Char) : Option (Nat × List Char) :=
  match cs with
  | '.' :: cs => do
    let digits := cs.takeWhile Char.isDigit
    if digits.isEmpty then none
    else
      let shown := digits.take 9
      let n ← Decimal.digits? 0 shown
      return (n * Decimal.tenTo (9 - shown.length), cs.drop digits.length)
  | _ => some (0, cs)

/-- An hour may be 24. -/
def time? (cs : List Char) : Option (TimeOfDay × List Char) := do
  let (hour, cs) ← number? 2 cs
  let (minute, cs) ← number? 2 (← after? ':' cs)
  let (second, cs) ← number? 2 (← after? ':' cs)
  let (nanosecond, cs) ← fraction? cs
  if hour ≤ 24 && minute ≤ 59 && second ≤ 59 then return (⟨hour, minute, second, nanosecond⟩, cs)
  else none

def offset? : List Char → Option (Option Offset)
  | [] => some none
  | ['Z'] | ['z'] => some (some .zulu)
  | c :: cs => do
    let negative ← if c = '-' then some true else if c = '+' then some false else none
    let (hours, cs) ← number? 2 cs
    let (minutes, cs) ← number? 2 (← after? ':' cs)
    if cs.isEmpty then return some (.hours (if negative then -(hours : Int) else hours) minutes)
    else none

/-- Reads a moment. A colon in the third place tells a time from a date. -/
def parse? (cs : List Char) : Option Moment := do
  if cs[2]? = some ':' then
    let (time, rest) ← time? cs
    if rest.isEmpty then return ⟨none, some time, none⟩ else none
  else
    let (date, rest) ← date? cs
    match rest with
    | [] => return ⟨some date, none, none⟩
    | c :: rest =>
      if c = 'T' || c = 't' || c = ' ' then
        let (time, rest) ← time? rest
        return ⟨some date, some time, ← offset? rest⟩
      else none

end Moment

end TestEngine.Toml

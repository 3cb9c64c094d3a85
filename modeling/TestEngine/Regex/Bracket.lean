import TestEngine.Regex.Escape

/-!
Classes in brackets, with ranges, classes within classes, and operators between them.
-/

namespace TestEngine.Regex

structure OpenClass where
  negated : Bool
  left : Option (CharClass × ClassOperator) := none
  items : CharClass := .empty

namespace OpenClass

def add (o : OpenClass) (a : CharClass) : OpenClass := { o with items := o.items.union a }

/-- Operators are applied from left to right. Case is ignored in each operand. -/
def value (f : Flags) (o : OpenClass) : CharClass :=
  let right := if f.ignoreCase then o.items.ignoringCase f.unicode else o.items
  match o.left with
  | none => right
  | some (left, op) => .combine op left right

def operator (f : Flags) (o : OpenClass) (op : ClassOperator) : OpenClass :=
  { o with left := some (o.value f, op), items := .empty }

def close (f : Flags) (o : OpenClass) : CharClass :=
  if o.negated then (o.value f).complement f.unicode else o.value f

/-- Minus signs at the start stand for themselves. -/
def startingDashes (f : Flags) (o : OpenClass) : List Char → OpenClass × List Char
  | '-' :: cs => startingDashes f (o.add (.single '-')) cs
  | cs => (o, cs)

/-- Reads what may follow an opening bracket only: a negation, minus signs, and a closing bracket that
stands for itself. -/
def start (f : Flags) (cs : List Char) : OpenClass × List Char :=
  let cs := f.skip cs
  let (negated, cs) := match cs with
    | '^' :: rest => (true, f.skip rest)
    | _ => (false, cs)
  match cs with
  | ']' :: rest => ({ negated, items := .single ']' }, rest)
  | _ => startingDashes f { negated } cs

end OpenClass

namespace Bracket

/-- One character, or what a backslash introduces. -/
def item? (f : Flags) : List Char → Option (Escape × List Char)
  | [] => none
  | '\\' :: cs => Escape.read? f cs
  | c :: cs => some (.char c, cs)

/-- Without Unicode, a class has characters of ASCII only. -/
def literal? (f : Flags) (c : Char) : Option Char := if f.unicode || c.toNat < 128 then some c else none

def lone? (f : Flags) : Escape → Option CharClass
  | .char c => (literal? f c).map .single
  | .named c negated =>
    let named := CharClass.ofNamed f.unicode c
    some (if negated then named.complement f.unicode else named)
  | .assertion _ => none

def range? (f : Flags) : Escape → Escape → Option CharClass
  | .char first, .char last => do
    let first ← literal? f first
    let last ← literal? f last
    if first ≤ last then some (.range first last) else none
  | _, _ => none

/-- An item, or a range of characters. A minus sign before a closing bracket or another minus sign
makes no range. -/
def element? (f : Flags) (cs : List Char) : Option (CharClass × List Char) := do
  let (first, cs) ← item? f cs
  match f.skip cs with
  | '-' :: rest =>
    match f.skip rest with
    | [] => none
    | ']' :: _ | '-' :: _ => return (← lone? f first, '-' :: rest)
    | cs => do
      let (last, cs) ← item? f cs
      return (← range? f first last, cs)
  | cs => return (← lone? f first, cs)

/-- A class of ASCII, such as `[:alpha:]`, whose opening bracket has been read. -/
def ascii? (f : Flags) : List Char → Option (CharClass × List Char)
  | ':' :: cs =>
    let (negated, cs) := match cs with
      | '^' :: rest => (true, rest)
      | _ => (false, cs)
    match cs.dropWhile (· != ':') with
    | ':' :: ']' :: rest =>
      (CharClass.ofAsciiName? (String.ofList (cs.takeWhile (· != ':')))).map fun named =>
        (if negated then named.complement f.unicode else named, rest)
    | _ => none
  | _ => none

/-- Reads the rest of the classes that are open, the innermost first, in at most `steps` steps. Every
step reads a character. -/
def continue? (f : Flags) : Nat → OpenClass → List OpenClass → List Char → Option (CharClass × List Char)
  | 0, _, _, _ => none
  | steps + 1, o, outer, cs =>
    match f.skip cs with
    | [] => none
    | '[' :: rest =>
      match ascii? f rest with
      | some (named, rest) => continue? f steps (o.add named) outer rest
      | none =>
        let (inner, rest) := OpenClass.start f rest
        continue? f steps inner (o :: outer) rest
    | ']' :: rest =>
      match outer with
      | [] => some (o.close f, rest)
      | o' :: outer => continue? f steps (o'.add (o.close f)) outer rest
    | '&' :: '&' :: rest => continue? f steps (o.operator f .intersection) outer rest
    | '-' :: '-' :: rest => continue? f steps (o.operator f .difference) outer rest
    | '~' :: '~' :: rest => continue? f steps (o.operator f .symmetricDifference) outer rest
    | cs =>
      match element? f cs with
      | some (a, rest) => continue? f steps (o.add a) outer rest
      | none => none

def read? (f : Flags) (cs : List Char) : Option (CharClass × List Char) :=
  let (o, rest) := OpenClass.start f cs
  continue? f (rest.length + 1) o [] rest

end Bracket

end TestEngine.Regex

import TestEngine.Decimal.Whole
import TestEngine.Regex.Bracket

/-! Reading regular expressions. The groups that are open are kept on a stack. -/

namespace TestEngine

namespace Regex

structure OpenGroup where
  flags : Flags := {}
  /-- The alternatives that are complete, the last one first. -/
  alternatives : List Regex := []
  /-- The parts of the alternative being read, the last one first. -/
  parts : List Regex := []
  /-- Whether the last thing read can be repeated. -/
  repeatable : Bool := false

namespace OpenGroup

def push (g : OpenGroup) (r : Regex) : OpenGroup := { g with parts := r :: g.parts, repeatable := true }

def current (g : OpenGroup) : Regex := g.parts.foldl (fun later r => .both r later) .empty

def endAlternative (g : OpenGroup) : OpenGroup :=
  { g with alternatives := g.current :: g.alternatives, parts := [], repeatable := false }

def close (g : OpenGroup) : Regex := g.alternatives.foldl (fun later r => .either r later) g.current

def repeatLast? (g : OpenGroup) (least : Nat) (most : Option Nat) : Option OpenGroup :=
  match g.parts with
  | r :: rs => if g.repeatable then some { g with parts := .repetition least most r :: rs } else none
  | [] => none

end OpenGroup

/-- A number between blanks, which must fit half a word. -/
def bound? (cs : List Char) : Option (Nat × List Char) :=
  let cs := cs.dropWhile Text.isBlank
  let digits := cs.takeWhile Char.isDigit
  if digits.isEmpty then none
  else
    (Decimal.digits? 0 digits).bind fun n =>
      if n < Decimal.twoTo 32 then some (n, (cs.drop digits.length).dropWhile Text.isBlank) else none

def bounds? (f : Flags) (cs : List Char) : Option (Nat × Option Nat × List Char) := do
  let (least, cs) ← bound? (f.skip cs)
  match cs with
  | '\x7d' :: cs => return (least, some least, cs)
  | ',' :: cs =>
    match f.skip cs with
    | '\x7d' :: cs => return (least, none, cs)
    | cs =>
      let (most, cs) ← bound? cs
      match cs with
      | '\x7d' :: cs => if least ≤ most then return (least, some most, cs) else none
      | _ => none
  | _ => none

/-- A question mark behind a repetition asks for as few as possible, which makes no difference here. -/
def skipLazy : List Char → List Char
  | '?' :: cs => cs
  | cs => cs

/-- The name of a group, up to the `>` that ends it. -/
def groupName? (cs : List Char) : Option (List Char × List Char) :=
  let name := cs.takeWhile (· != '>')
  match name, cs.drop name.length with
  | c :: more, _ :: rest =>
    let starts := c == '_' || (CharSet.wordCharacter.contains c && !CharSet.decimalDigit.contains c)
    let goesOn (d : Char) : Bool := CharSet.wordCharacter.contains d || ".[]".toList.contains d
    if starts && more.all goesOn then some (name, rest) else none
  | _, _ => none

inductive GroupStart where
  | group (name : Option (List Char)) (flags : Flags)
  | setFlags (flags : Flags)

/-- Reads what follows an opening parenthesis. Looking around is not part of the language. -/
def groupStart? (f : Flags) (cs : List Char) : Option (GroupStart × List Char) :=
  match f.skip cs with
  | '?' :: '=' :: _ | '?' :: '!' :: _ | '?' :: '<' :: '=' :: _ | '?' :: '<' :: '!' :: _ => none
  | '?' :: 'P' :: '<' :: cs | '?' :: '<' :: cs =>
    (groupName? cs).map fun (name, rest) => (.group (some name) f, rest)
  | '?' :: cs =>
    match f.read [] cs with
    | some (flags, ':' :: rest) => some (.group none flags, rest)
    | some (flags, _ :: rest) => if cs.head? = some ')' then none else some (.setFlags flags, rest)
    | _ => none
  | cs => some (.group none f, cs)

/-- The state of the reader: the innermost open group, the groups around it, and the names in use. -/
structure Reading where
  group : OpenGroup := {}
  outer : List OpenGroup := []
  names : List (List Char) := []

namespace Reading

def push (r : Reading) (e : Regex) : Reading := { r with group := r.group.push e }

def repeatLast? (r : Reading) (least : Nat) (most : Option Nat) : Option Reading :=
  (r.group.repeatLast? least most).map fun group => { r with group }

def pushClass? (r : Reading) (a : CharClass) : Option Reading :=
  if a.foreign then none else some (r.push (.one (r.group.flags.accepts a)))

/-- A character stands for the characters it folds the same as, if case is ignored. -/
def pushChar (r : Reading) (c : Char) : Reading :=
  r.push (.one (r.group.flags.accepts (.single c)))

def pushEscape? (r : Reading) : Escape → Option Reading
  | .char c => some (r.pushChar c)
  | .assertion a => some (r.push (.assertion a))
  | .named c negated =>
    let unicode := r.group.flags.unicode
    let named := CharClass.ofNamed unicode c
    r.pushClass? (if negated then named.complement unicode else named)

/-- All characters, or all but line ends. -/
def dot (f : Flags) : CharClass :=
  let lineEnds : CharSet := if f.crlf then [(10, 10), (13, 13)] else [(10, 10)]
  (if f.dotMatchesNewLine then CharClass.empty else .ofSet lineEnds).complement f.unicode

def openGroup? (r : Reading) (cs : List Char) : Option (Reading × List Char) :=
  match groupStart? r.group.flags cs with
  | none => none
  | some (.setFlags flags, rest) =>
    some ({ r with group := { r.group with flags, repeatable := false } }, rest)
  | some (.group name flags, rest) =>
    match name with
    | none => some ({ r with group := { flags }, outer := r.group :: r.outer }, rest)
    | some name =>
      if r.names.contains name then none
      else some ({ group := { flags }, outer := r.group :: r.outer, names := name :: r.names }, rest)

def closeGroup? (r : Reading) : Option Reading :=
  match r.outer with
  | [] => none
  | g :: outer => some { r with group := g.push r.group.close, outer }

def step? (r : Reading) : List Char → Option (Reading × List Char)
  | [] => none
  | c :: cs =>
    let flags := r.group.flags
    match c with
    | '(' => r.openGroup? cs
    | ')' => r.closeGroup?.map (·, cs)
    | '|' => some ({ r with group := r.group.endAlternative }, cs)
    | '[' => do
      let (a, rest) ← Bracket.read? flags cs
      return (← r.pushClass? a, rest)
    | '?' => (r.repeatLast? 0 (some 1)).map (·, skipLazy cs)
    | '*' => (r.repeatLast? 0 none).map (·, skipLazy cs)
    | '+' => (r.repeatLast? 1 none).map (·, skipLazy cs)
    | '\x7b' => do
      let (least, most, rest) ← bounds? flags cs
      return (← r.repeatLast? least most, skipLazy (flags.skip rest))
    | '\\' => do
      let (e, rest) ← Escape.read? flags cs
      return (← r.pushEscape? e, rest)
    | '.' => (r.pushClass? (dot flags)).map (·, cs)
    | '^' => some (r.push (.assertion (if flags.multiLine then .lineStart flags.crlf else .textStart)), cs)
    | '$' => some (r.push (.assertion (if flags.multiLine then .lineEnd flags.crlf else .textEnd)), cs)
    | _ => some (r.pushChar c, cs)

/-- Reads the rest of the expression in at most `steps` steps. Every step reads a character. -/
def finish? : Nat → Reading → List Char → Option Regex
  | 0, _, _ => none
  | steps + 1, r, cs =>
    match r.group.flags.skip cs with
    | [] => if r.outer.isEmpty then some r.group.close else none
    | cs =>
      match r.step? cs with
      | some (r, rest) => finish? steps r rest
      | none => none

end Reading

def parse? (text : String) : Option Regex := Reading.finish? (text.length + 1) {} text.toList

/-- The pattern that `text` is read as where it has to match a whole text. -/
def anchored (text : String) : String := "^(?:" ++ text ++ ")$"

end Regex

end TestEngine

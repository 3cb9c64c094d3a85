import TestEngine.Text.WordCharacter

/-!
Regular expressions and the texts they match. Matching follows the set of positions that can be reached
in a text, so its cost does not grow with the number of ways to match.
-/

namespace TestEngine

inductive Assertion where
  | textStart
  | textEnd
  /-- The start of the text or of a line; with `crlf` a carriage return ends lines as well. -/
  | lineStart (crlf : Bool)
  | lineEnd (crlf : Bool)
  /-- What is before and after, in characters of words: `ascii` counts those of ASCII only. -/
  | word (ascii : Bool) (fits : Bool → Bool → Bool)

/-- A regular expression over single characters, each given as a test. -/
inductive Regex where
  | empty
  | one (accepts : Char → Bool)
  | assertion (a : Assertion)
  | both (first second : Regex)
  | either (first second : Regex)
  /-- At least `least` times in a row, and at most `most` times if that is given. -/
  | repetition (least : Nat) (most : Option Nat) (inner : Regex)

namespace Assertion

def isWord (ascii : Bool) (c : Char) : Bool :=
  if ascii then c.isAlphanum || c == '_' else CharSet.wordCharacter.contains c

/-- Whether the assertion holds between the characters `before` and `after`. -/
def holds (before after : Option Char) : Assertion → Bool
  | .textStart => before.isNone
  | .textEnd => after.isNone
  | .lineStart crlf =>
    before.all fun b => b == '\n' || (crlf && b == '\r' && after != some '\n')
  | .lineEnd crlf =>
    after.all fun a =>
      if crlf then a == '\r' || (a == '\n' && before != some '\r') else a == '\n'
  | .word ascii fits => fits (before.any (isWord ascii)) (after.any (isWord ascii))

end Assertion

namespace Regex

/-- What is reached from a set of positions in at most `steps` more, on top of `found`. -/
def spread (step : List Nat → List Nat) : Nat → List Nat → List Nat → List Nat
  | 0, found, _ => found
  | steps + 1, found, frontier =>
    let new := (step frontier).filter (!found.contains ·)
    if new.isEmpty then found else spread step steps (found ++ new) new

/-- The positions in a text, each at most once, at which a match can end that starts at one of the
positions given. More repetitions than there are positions reach nothing else. -/
def reach (text : Array Char) : Regex → List Nat → List Nat
  | .empty, starts => starts
  | .one accepts, starts =>
    (starts.filter fun i => text[i]?.any accepts).map (· + 1)
  | .assertion a, starts =>
    starts.filter fun i => a.holds (if i = 0 then none else text[i - 1]?) text[i]?
  | .both first second, starts => reach text second (reach text first starts)
  | .either first second, starts =>
    let found := reach text first starts
    found ++ (reach text second starts).filter (!found.contains ·)
  | .repetition least most inner, starts =>
    let first := Nat.repeat (reach text inner) (min least (text.size + 1)) starts
    let more := match most with
      | some most => min (most - least) (text.size + 1)
      | none => text.size + 1
    spread (reach text inner) more first first

def isMatch (r : Regex) (text : String) : Bool :=
  let cs := text.toList.toArray
  !(reach cs r (List.range (cs.size + 1))).isEmpty

end Regex

end TestEngine

import TestEngine.Settings
import TestEngine.Text.DecimalDigit
import TestEngine.Value

/-!
Names of the invocations of a template, made from a pattern with placeholders such as `{index}`. The
pattern is read once from left to right, so that text put in for a placeholder is not read again.
-/

namespace TestEngine.DisplayName

inductive Piece where
  | literal (c : Char)
  | placeholder (key : List Char)
  deriving DecidableEq, Repr

def isLetter (c : Char) : Bool := c.isAlpha

def isDigit (c : Char) : Bool := CharSet.decimalDigit.contains c

/-- The key of a placeholder whose brace has been read, and what follows its closing brace. Keys are
letters only or digits only. -/
def key? (cs : List Char) : Option (List Char × List Char) :=
  let close (key : List Char) (rest : List Char) : Option (List Char × List Char) :=
    match key, rest with
    | _ :: _, '\x7d' :: after => some (key, after)
    | _, _ => none
  match close (cs.takeWhile isLetter) (cs.dropWhile isLetter) with
  | some found => some found
  | none => close (cs.takeWhile isDigit) (cs.dropWhile isDigit)

theorem length_of_key? {cs key after : List Char} (h : key? cs = some (key, after)) :
    after.length < cs.length := by
  have drop : ∀ p : Char → Bool, (cs.dropWhile p).length ≤ cs.length := fun p =>
    (List.dropWhile_sublist p).length_le
  have letters := drop isLetter
  have digits := drop isDigit
  simp only [key?] at h
  grind

/-- The pieces of a pattern. A brace that opens no placeholder stands for itself. -/
def pieces : List Char → List Piece
  | [] => []
  | c :: cs =>
    if c = '\x7b' then
      match h : key? cs with
      | some (key, after) =>
        have := length_of_key? h
        .placeholder key :: pieces after
      | none => .literal c :: pieces cs
    else .literal c :: pieces cs
termination_by cs => cs.length

def defaultPattern : String := "[\x7bindex\x7d] \x7bargumentsWithNames\x7d"

def defaultMaxLength : Nat := 512

/-- What the names of one template's invocations are made of. -/
structure Formatter where
  pattern : String
  displayName : String
  /-- The most characters shown of one argument, at least one. -/
  maxLength : Nat
  deriving Inhabited

namespace Formatter

def new (pattern displayName : String) (maxLength : Nat) : Formatter :=
  ⟨pattern, displayName, max maxLength 1⟩

/-- What is not given is taken from the configuration, or else is a default. -/
def configured (pattern : Option String) (displayName : String) (c : Configuration) : Formatter :=
  .new ((pattern.orElse fun _ => c.get? Key.defaultDisplayName).getD defaultPattern) displayName
    ((c.nat? Key.argumentMaxLength).getD defaultMaxLength)

def truncate (f : Formatter) (text : String) : String :=
  if text.length ≤ f.maxLength then text
  else String.ofList (text.toList.take (f.maxLength - 1) ++ ['…'])

/-- The text shown for an argument: its label, or else its value. -/
def argument (f : Formatter) (a : Argument) : String :=
  f.truncate (a.label.getD a.value.render)

def arguments (f : Formatter) (args : List Argument) : String :=
  ", ".intercalate (args.map f.argument)

def named (f : Formatter) : List Argument → List String → List String
  | [], _ => []
  | a :: args, [] => f.argument a :: named f args []
  | a :: args, name :: names => (name ++ "=" ++ f.argument a) :: named f args names

/-- The text put in for a placeholder, if it stands for any. -/
def value? (f : Formatter) (index : Nat) (args : List Argument) (names : List String) (key : String) :
    Option String :=
  match key with
  | "index" => some (toString index)
  | "displayName" => some f.displayName
  | "arguments" => some (f.arguments args)
  | "argumentsWithNames" => some (", ".intercalate (f.named args names))
  | _ => (Decimal.word? key.toList).bind fun i => args[i]?.map f.argument

/-- The text of one piece. A placeholder that stands for nothing stays as it is written. -/
def fill (f : Formatter) (index : Nat) (args : List Argument) (names : List String) : Piece → String
  | .literal c => String.singleton c
  | .placeholder key =>
    (f.value? index args names (String.ofList key)).getD
      ("\x7b" ++ String.ofList key ++ "\x7d")

/-- The name of invocation `index`, counted from one. -/
def format (f : Formatter) (index : Nat) (args : List Argument) (names : List String) : String :=
  "".intercalate ((pieces f.pattern.toList).map (f.fill index args names))

end Formatter

end TestEngine.DisplayName

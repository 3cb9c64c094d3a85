import TestEngine.Regex.Basic
import TestEngine.Regex.CharClass
import TestEngine.Text.Hex

/-! The flags of a regular expression, its layout, and what a backslash introduces. -/

namespace TestEngine.Regex

/-- What the letters of a flag group switch on and off. -/
structure Flags where
  ignoreCase : Bool := false
  multiLine : Bool := false
  dotMatchesNewLine : Bool := false
  /-- Whether classes and cases are those of Unicode, and not only of ASCII. -/
  unicode : Bool := true
  crlf : Bool := false
  /-- Whether blanks and comments may stand between the parts of the expression. -/
  verbose : Bool := false
  deriving DecidableEq, Repr

namespace Flags

/-- Switches the flag with a letter. Which of several matches is preferred makes no difference to
whether there is one. -/
def switch (f : Flags) (letter : Char) (on : Bool) : Option Flags :=
  match letter with
  | 'i' => some { f with ignoreCase := on }
  | 'm' => some { f with multiLine := on }
  | 's' => some { f with dotMatchesNewLine := on }
  | 'U' => some f
  | 'u' => some { f with unicode := on }
  | 'R' => some { f with crlf := on }
  | 'x' => some { f with verbose := on }
  | _ => none

/-- Reads flags up to a `:` or `)`, which is left. `seen` are the letters and minus signs read so far,
the last one first: none may come twice, and flags must follow a minus sign. -/
def read (f : Flags) (seen : List Char) : List Char → Option (Flags × List Char)
  | [] => none
  | c :: cs =>
    if c = ':' || c = ')' then if seen.head? = some '-' then none else some (f, c :: cs)
    else if seen.contains c then none
    else if c = '-' then read f (c :: seen) cs
    else
      match f.switch c (!seen.contains '-') with
      | some f => read f (c :: seen) cs
      | none => none

/-- Whether a character belongs to a class as the flags have it. -/
def accepts (f : Flags) (a : CharClass) : Char → Bool :=
  (if f.ignoreCase then a.ignoringCase f.unicode else a).contains

/-- Passes over blanks and comments; a comment ends with its line. -/
def skipLayout (inComment : Bool) : List Char → List Char
  | [] => []
  | c :: cs =>
    if inComment then skipLayout (c ≠ '\n') cs
    else if Text.isBlank c then skipLayout false cs
    else if c = '#' then skipLayout true cs
    else c :: cs

/-- What follows the layout that may stand here. -/
def skip (f : Flags) (cs : List Char) : List Char := if f.verbose then skipLayout false cs else cs

end Flags

inductive Escape where
  | char (c : Char)
  | named (c : NamedClass) (negated : Bool)
  | assertion (a : Assertion)

namespace Escape

def isMeta (c : Char) : Bool := "\\.+*?()|[]\x7b\x7d^$#&-~".toList.contains c

def isEscapeable (c : Char) : Bool :=
  isMeta c || (c.toNat < 128 && !c.isAlphanum && c != '<' && c != '>')

def ofHex? (digits : List Char) : Option Char :=
  match digits with
  | [] => none
  | _ => (Hex.digits? 0 digits).bind fun n => if n.isValidChar then some (Char.ofNat n) else none

/-- A code point written in `width` digits, or in any number of them between braces. Without Unicode, two
digits write a byte, which must be one of ASCII. -/
def hex? (f : Flags) (width : Nat) (cs : List Char) : Option (Escape × List Char) :=
  match f.skip cs with
  | '\x7b' :: cs => do
    let digits := cs.takeWhile (· != '\x7d')
    match cs.drop digits.length with
    | [] => none
    | _ :: rest => return (.char (← ofHex? (digits.filter fun c => !f.verbose || !Text.isBlank c)), rest)
  | cs =>
    if (cs.take width).length < width then none
    else (ofHex? (cs.take width)).bind fun c =>
      if f.unicode || width ≠ 2 || c.toNat < 128 then some (.char c, cs.drop width) else none

def wordStart (ascii : Bool) : Assertion := .word ascii fun before after => !before && after

def wordEnd (ascii : Bool) : Assertion := .word ascii fun before after => before && !after

def boundary? (ascii : Bool) : String → Option Assertion
  | "start" => some (wordStart ascii)
  | "end" => some (wordEnd ascii)
  | "start-half" => some (.word ascii fun before _ => !before)
  | "end-half" => some (.word ascii fun _ after => !after)
  | _ => none

/-- What follows `\b`: a name in braces if a letter or a minus sign follows the brace. -/
def wordBoundary? (f : Flags) (cs : List Char) : Option (Escape × List Char) :=
  let isNameChar (c : Char) : Bool := c.isAlpha || c == '-'
  let plain : Escape := .assertion (.word (!f.unicode) (· != ·))
  match cs with
  | '\x7b' :: inner =>
    match f.skip inner with
    | [] => none
    | c :: rest =>
      if !isNameChar c then some (plain, cs)
      else
        let name := (c :: rest).takeWhile isNameChar
        match f.skip ((c :: rest).dropWhile isNameChar) with
        | '\x7d' :: after =>
          (boundary? (!f.unicode) (String.ofList name)).map fun a => (.assertion a, after)
        | _ => none
  | _ => some (plain, cs)

/-- Reads what follows a backslash. References back to groups are not part of the language. -/
def read? (f : Flags) : List Char → Option (Escape × List Char)
  | [] => none
  | c :: cs =>
    match c with
    | 'x' => hex? f 2 cs
    | 'u' => hex? f 4 cs
    | 'U' => hex? f 8 cs
    | 'd' => some (.named .digit false, cs)
    | 'D' => some (.named .digit true, cs)
    | 's' => some (.named .space false, cs)
    | 'S' => some (.named .space true, cs)
    | 'w' => some (.named .word false, cs)
    | 'W' => some (.named .word true, cs)
    | 'a' => some (.char '\x07', cs)
    | 'f' => some (.char '\x0c', cs)
    | 't' => some (.char '\t', cs)
    | 'n' => some (.char '\n', cs)
    | 'r' => some (.char '\r', cs)
    | 'v' => some (.char '\x0b', cs)
    | 'A' => some (.assertion .textStart, cs)
    | 'z' => some (.assertion .textEnd, cs)
    | 'b' => wordBoundary? f cs
    | 'B' => some (.assertion (.word (!f.unicode) (· == ·)), cs)
    | '<' => some (.assertion (wordStart (!f.unicode)), cs)
    | '>' => some (.assertion (wordEnd (!f.unicode)), cs)
    | _ => if isEscapeable c then some (.char c, cs) else none

end Escape

end TestEngine.Regex

import TestEngine.Text.Hex

/-! The tokens of configuration files. -/

namespace TestEngine.Toml

inductive Token where
  | newline
  | blank (text : List Char)
  | comment
  | equals | period | comma | colon | plus
  | leftBrace | rightBrace | leftBracket | rightBracket
  | bare (word : List Char)
  /-- The value of a string, and whether it was written to span lines. -/
  | text (value : List Char) (multiline : Bool)
  deriving DecidableEq, Repr, Inhabited

namespace Token

def isBare (c : Char) : Bool := c.isAlphanum || c == '-' || c == '_'

def isSpace (c : Char) : Bool := c == ' ' || c == '\t'

/-- Control characters other than the tab stand in no string and end a comment. -/
def isPlain (c : Char) : Bool := c == '\t' || 0x20 ≤ c.toNat

/-- A carriage return before a newline belongs to it. -/
def foldLineEnds : List Char → List Char
  | '\r' :: '\n' :: cs => '\n' :: foldLineEnds cs
  | c :: cs => c :: foldLineEnds cs
  | [] => []

def codePoint? (width : Nat) (cs : List Char) : Option (Char × List Char) :=
  let digits := cs.take width
  if digits.length < width then none
  else (Hex.digits? 0 digits).bind fun n =>
    if n.isValidChar then some (Char.ofNat n, cs.drop width) else none

/-- What a backslash and the characters behind it stand for, outside of line ends. -/
def escape? : List Char → Option (Char × List Char)
  | '"' :: cs => some ('"', cs)
  | '\\' :: cs => some ('\\', cs)
  | 'b' :: cs => some ('\x08', cs)
  | 'f' :: cs => some ('\x0c', cs)
  | 'n' :: cs => some ('\n', cs)
  | 'r' :: cs => some ('\r', cs)
  | 't' :: cs => some ('\t', cs)
  | 'u' :: cs => codePoint? 4 cs
  | 'U' :: cs => codePoint? 8 cs
  | _ => none

/-- What follows a backslash at the end of a line: it takes away the blanks and newlines up to the next
other character. -/
def joinLines? (cs : List Char) : Option (List Char) :=
  match cs.dropWhile isSpace with
  | '\n' :: rest => some (rest.dropWhile fun c => isSpace c || c == '\n')
  | _ => none

/-- The rest of a string, up to the quote that ends it. `escapes` says whether a backslash means
anything. Every step reads a character. -/
def line? (quote : Char) (escapes : Bool) : Nat → List Char → Option (List Char × List Char)
  | 0, _ => none
  | _ + 1, [] => none
  | steps + 1, c :: cs =>
    if c = quote then some ([], cs)
    else if escapes && c = '\\' then
      match escape? cs with
      | some (d, rest) => (line? quote escapes steps rest).map fun (s, rest) => (d :: s, rest)
      | none => none
    else if isPlain c && c != '\x7f' then
      (line? quote escapes steps cs).map fun (s, rest) => (c :: s, rest)
    else none

/-- As `line?`, for a string that ends with three quotes. Up to two more stand for themselves. -/
def lines? (quote : Char) (escapes : Bool) : Nat → List Char → Option (List Char × List Char)
  | 0, _ => none
  | _ + 1, [] => none
  | steps + 1, c :: cs =>
    if c = quote then
      let more := (cs.takeWhile (· == quote)).length
      if 2 ≤ more then
        let own := min (more - 2) 2
        some (List.replicate own quote, cs.drop (2 + own))
      else (lines? quote escapes steps cs).map fun (s, rest) => (c :: s, rest)
    else if escapes && c = '\\' then
      match escape? cs with
      | some (d, rest) => (lines? quote escapes steps rest).map fun (s, rest) => (d :: s, rest)
      | none => (joinLines? cs).bind (lines? quote escapes steps)
    else if c = '\n' || (isPlain c && c != '\x7f') then
      (lines? quote escapes steps cs).map fun (s, rest) => (c :: s, rest)
    else none

/-- A string behind its first quote. The newline that follows three quotes does not belong to it. -/
def string? (quote : Char) (escapes : Bool) (cs : List Char) : Option (Token × List Char) :=
  match cs with
  | a :: b :: rest =>
    if a = quote && b = quote then
      let body := match rest with
        | '\n' :: body => body
        | _ => rest
      (lines? quote escapes (body.length + 1) body).map fun (s, rest) => (.text s true, rest)
    else (line? quote escapes (cs.length + 1) cs).map fun (s, rest) => (.text s false, rest)
  | _ => (line? quote escapes (cs.length + 1) cs).map fun (s, rest) => (.text s false, rest)

def next? (c : Char) (cs : List Char) : Option (Token × List Char) :=
  match c with
  | '\n' => some (.newline, cs)
  | ' ' | '\t' => some (.blank (c :: cs.takeWhile isSpace), cs.dropWhile isSpace)
  | '#' => some (.comment, cs.dropWhile isPlain)
  | '=' => some (.equals, cs)
  | '.' => some (.period, cs)
  | ',' => some (.comma, cs)
  | ':' => some (.colon, cs)
  | '+' => some (.plus, cs)
  | '\x7b' => some (.leftBrace, cs)
  | '\x7d' => some (.rightBrace, cs)
  | '[' => some (.leftBracket, cs)
  | ']' => some (.rightBracket, cs)
  | '\'' => string? '\'' false cs
  | '"' => string? '"' true cs
  | _ => if isBare c then some (.bare (c :: cs.takeWhile isBare), cs.dropWhile isBare) else none

/-- The tokens of a text, in at most `steps` steps. Every step reads a character. -/
def scan? : Nat → List Char → Option (List Token)
  | 0, _ => none
  | _ + 1, [] => some []
  | steps + 1, c :: cs =>
    match next? c cs with
    | some (t, rest) => (scan? steps rest).map (t :: ·)
    | none => none

/-- The tokens of a file. A byte order mark may stand at its start. -/
def ofText? (text : String) : Option (List Token) :=
  let cs := match text.toList with
    | '\ufeff' :: cs => cs
    | cs => cs
  let cs := foldLineEnds cs
  scan? (cs.length + 1) cs

end Token

end TestEngine.Toml

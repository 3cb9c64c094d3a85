import TestEngine.Toml.Number

/-! Reading the lines of configuration files. -/

namespace TestEngine.Toml

inductive Written where
  | scalar (s : Scalar)
  | array (items : List Written)
  /-- A table in braces, or with `dotted` one that keys with points make, to which more such keys may add.
  A key may be there more than once. -/
  | table (dotted : Bool) (pairs : List (String × Written))
  deriving Inhabited

structure Section where
  path : List String
  /-- Whether the section adds an item to an array of tables. -/
  isItem : Bool
  pairs : List (String × Written)
  deriving Inhabited

/-- Puts a value under a key with points. Only tables made by such keys can be added to. -/
def addDotted? (value : Written) :
    List String → List (String × Written) → Option (List (String × Written))
  | [], _ => none
  | [key], pairs => some (pairs ++ [(key, value)])
  | key :: next :: keys, pairs =>
    match pairs.findIdx? (·.1 == key) with
    | none => (addDotted? value (next :: keys) []).map fun inner => pairs ++ [(key, .table true inner)]
    | some i =>
      match pairs[i]? with
      | some (_, .table true inner) =>
        (addDotted? value (next :: keys) inner).map fun inner => pairs.set i (key, .table true inner)
      | _ => none

def skipBlank : List Token → List Token
  | .blank _ :: ts => ts
  | ts => ts

def isBlank : Token → Bool
  | .blank _ => true
  | _ => false

def isLayout : Token → Bool
  | .blank _ | .comment | .newline => true
  | _ => false

def isKeyPart : Token → Bool
  | .blank _ | .period | .bare _ | .text _ _ => true
  | _ => false

def keys? : List Token → Option (List String)
  | [.bare word] => some [String.ofList word]
  | [.text value false] => some [String.ofList value]
  | .bare word :: .period :: ts => (keys? ts).map (String.ofList word :: ·)
  | .text value false :: .period :: ts => (keys? ts).map (String.ofList value :: ·)
  | _ => none

/-- A key, and the tokens from the next that is no part of it. -/
def dottedKey? (ts : List Token) : Option (List String × List Token) :=
  (keys? ((ts.takeWhile isKeyPart).filter (!isBlank ·))).map (·, ts.dropWhile isKeyPart)

def afterEquals? : List Token → Option (List Token)
  | .equals :: ts => some (skipBlank ts)
  | _ => none

/-- A date or time that begins with a word, put together from its tokens. `colon` tells whether a colon
behind the word has been read. -/
def moment? (word : List Char) (colon : Bool) (ts : List Token) : Option (Scalar × List Token) := do
  let text := if colon then word ++ [':'] else word
  let (text, ts) := match ts with
    | .blank [' '] :: .bare hour :: ts => (text ++ ' ' :: hour, ts)
    | _ => (text, ts)
  let colonFollows := ts.head? = some .colon
  let timed := colon || colonFollows
  let (text, ts) := if !colon && colonFollows then (text ++ [':'], ts.tail) else (text, ts)
  let (text, ts) ←
    if timed then
      match ts with
      | .bare minute :: .colon :: .bare second :: ts =>
        let text := text ++ minute ++ ':' :: second
        let (text, ts) ← match ts with
          | .period :: .bare fraction :: ts => some (text ++ '.' :: fraction, ts)
          | .period :: _ => none
          | _ => some (text, ts)
        let (text, ts) ← match ts with
          | .plus :: .bare hours :: ts => some (text ++ '+' :: hours, ts)
          | .plus :: _ => none
          | _ => some (text, ts)
        match ts with
        | .colon :: .bare minutes :: ts => some (text ++ ':' :: minutes, ts)
        | .colon :: _ => none
        | _ => some (text, ts)
      | _ => none
    else some (text, ts)
  return (.moment (← Moment.parse? text), ts)

/-- Whether a word begins a date: it has a `T`, or a minus sign that belongs to no exponent. -/
def beginsDate (word : List Char) : Bool :=
  let exponent (e : Char) : Bool := (word.zip word.tail).contains (e, '-')
  word.contains 'T' || word.contains 't'
    || (word.tail.contains '-' && !exponent 'e' && !exponent 'E')

def word? (word : List Char) (ts : List Token) : Option (Scalar × List Token) :=
  match String.ofList word with
  | "true" => some (.boolean true, ts)
  | "false" => some (.boolean false, ts)
  | text =>
    if text = "inf" || text = "nan" || word.head?.any fun c => c = '-' || c.isDigit then
      if beginsDate word then moment? word false ts
      else
        match ts with
        | .colon :: ts => moment? word true ts
        | _ => number? word ts
    else none

mutual
/-- Reads a value. Values are nested at most as deep as there are `steps`, which never runs out if there
are as many as tokens. -/
def value? : Nat → List Token → Option (Written × List Token)
  | 0, _ => none
  | steps + 1, ts =>
    match ts with
    | .text value _ :: ts => some (.scalar (.text (String.ofList value)), ts)
    | .bare word :: ts => (word? word ts).map fun (s, ts) => (.scalar s, ts)
    | .plus :: .bare word :: ts => (number? word ts).map fun (s, ts) => (.scalar s, ts)
    | .leftBrace :: ts =>
      match skipBlank ts with
      | .rightBrace :: ts => some (.table false [], ts)
      | ts => inline? steps [] ts
    | .leftBracket :: ts => items? steps [] (ts.dropWhile isLayout)
    | _ => none
/-- Reads the pairs of a table in braces behind those read so far. -/
def inline? (steps : Nat) (pairs : List (String × Written)) (ts : List Token) :
    Option (Written × List Token) :=
  match steps with
  | 0 => none
  | steps + 1 => do
    let (keys, ts) ← dottedKey? ts
    let (value, ts) ← value? steps (← afterEquals? ts)
    let pairs ← addDotted? value keys pairs
    match skipBlank ts with
    | .rightBrace :: ts => return (.table false pairs, ts)
    | .comma :: ts => inline? steps pairs (skipBlank ts)
    | _ => none
/-- Reads the items of an array behind those read so far. A comma may follow the last one. -/
def items? (steps : Nat) (items : List Written) (ts : List Token) : Option (Written × List Token) :=
  match steps with
  | 0 => none
  | steps + 1 =>
    match ts with
    | .rightBracket :: ts => some (.array items, ts)
    | ts => do
      let (value, ts) ← value? steps ts
      let items := items ++ [value]
      match ts.dropWhile isLayout with
      | .comma :: ts => items? steps items (ts.dropWhile isLayout)
      | .rightBracket :: ts => return (.array items, ts)
      | _ => none
end

/-- What follows a line that is complete but for blanks and a comment. -/
def endOfLine? (ts : List Token) : Option (List Token) :=
  match skipBlank ts with
  | [] | [.comment] => some []
  | .newline :: ts | .comment :: .newline :: ts => some ts
  | _ => none

/-- The heading of a section, whose first bracket has been read. -/
def heading? (ts : List Token) : Option (Section × List Token) := do
  let (isItem, ts) := match ts with
    | .leftBracket :: ts => (true, ts)
    | _ => (false, ts)
  let (path, ts) ← dottedKey? ts
  let ts ← match isItem, ts with
    | true, .rightBracket :: .rightBracket :: ts | false, .rightBracket :: ts => some ts
    | _, _ => none
  return ({ path, isItem, pairs := [] }, ← endOfLine? ts)

/-- Reads the lines behind the sections read so far, the last one first, in at most `steps` steps. Every
step reads a token. -/
def sections? : Nat → Section → List Section → List Token → Option (List Section)
  | 0, _, _, _ => none
  | steps + 1, current, before, ts =>
    match ts.dropWhile isLayout with
    | [] => some (current :: before).reverse
    | .leftBracket :: ts =>
      match heading? ts with
      | some (next, ts) => sections? steps next (current :: before) ts
      | none => none
    | ts => do
      let (keys, ts) ← dottedKey? ts
      let (value, ts) ← value? (ts.length + 1) (← afterEquals? ts)
      let pairs ← addDotted? value keys current.pairs
      sections? steps { current with pairs } before (← endOfLine? ts)

/-- The sections of a text, the lines before the first heading in one without a path. -/
def read? (text : String) : Option (List Section) := do
  let ts ← Token.ofText? text
  sections? (ts.length + 1) { path := [], isItem := false, pairs := [] } [] ts

end TestEngine.Toml

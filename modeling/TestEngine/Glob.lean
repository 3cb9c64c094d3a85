/-!
Patterns for whole names. `?` stands for a character, `*` for any text, `**` as a whole path component
for any components, and brackets for one character of a set or, with `!`, outside of it.
-/

namespace TestEngine

namespace Glob

inductive Member where
  | one (c : Char)
  /-- Both ends belong to the range. -/
  | range (first last : Char)
  deriving DecidableEq, Repr, Inhabited

inductive Token where
  | char (c : Char)
  | anyChar
  | anyText
  /-- Any number of whole components, each with the separator behind it. -/
  | anyComponents
  | within (set : List Member)
  | outside (set : List Member)
  deriving DecidableEq, Repr, Inhabited

def isSeparator (c : Char) : Bool := c == '/'

def Member.contains (c : Char) : Member → Bool
  | .one d => c == d
  | .range first last => first ≤ c && c ≤ last

/-- A `-` between two characters makes a range of the three. -/
def members : List Char → List Member
  | first :: '-' :: last :: rest => .range first last :: members rest
  | c :: rest => .one c :: members rest
  | [] => []

/-- What stands before the first `]` and after it. -/
def closeBracket? : List Char → Option (List Char × List Char)
  | [] => none
  | ']' :: rest => some ([], rest)
  | c :: rest => (closeBracket? rest).map fun (inside, after) => (c :: inside, after)

/-- A set whose `[` has been read. It has at least one character, which may be a `]`. -/
def set? : List Char → Option (Token × List Char)
  | '!' :: c :: rest =>
    (closeBracket? rest).map fun (inside, after) => (.outside (members (c :: inside)), after)
  | ['!'] => none
  | c :: rest =>
    (closeBracket? rest).map fun (inside, after) => (.within (members (c :: inside)), after)
  | [] => none

theorem length_of_closeBracket? {cs inside after : List Char}
    (h : closeBracket? cs = some (inside, after)) : after.length < cs.length := by
  induction cs generalizing inside with
  | nil => simp [closeBracket?] at h
  | cons c rest ih =>
    by_cases hc : c = ']'
    · subst hc
      simp only [closeBracket?, Option.some.injEq, Prod.mk.injEq] at h
      simp [h.2]
    · rw [closeBracket?] at h
      · obtain ⟨⟨i, a⟩, found, same⟩ := Option.map_eq_some_iff.mp h
        simp only [Prod.mk.injEq] at same
        have shorter := @ih i (same.2 ▸ found)
        simp only [List.length_cons]
        omega
      · exact hc

theorem length_of_set? {cs after : List Char} {t : Token} (h : set? cs = some (t, after)) :
    after.length < cs.length := by
  unfold set? at h
  split at h
  · obtain ⟨⟨i, a⟩, found, same⟩ := Option.map_eq_some_iff.mp h
    have shorter := length_of_closeBracket? found
    obtain rfl : a = after := (Prod.mk.inj same).2
    simp only [List.length_cons]
    omega
  · simp at h
  · obtain ⟨⟨i, a⟩, found, same⟩ := Option.map_eq_some_iff.mp h
    have shorter := length_of_closeBracket? found
    obtain rfl : a = after := (Prod.mk.inj same).2
    simp only [List.length_cons]
    omega
  · simp at h

/-- Adds `**` unless one stands at the end already; a first one may be followed by a second. -/
def addComponents (tokens : List Token) : List Token :=
  if 1 < tokens.length && tokens.getLast? == some .anyComponents then tokens
  else tokens ++ [.anyComponents]

/-- Reads a pattern behind `before`, the character read last; none at the start of the pattern. -/
def tokenize (before : Option Char) (tokens : List Token) : List Char → Option (List Token)
  | [] => some tokens
  | '?' :: rest => tokenize (some '?') (tokens ++ [.anyChar]) rest
  | '*' :: '*' :: '*' :: _ => none
  | '*' :: '*' :: rest =>
    if before.all isSeparator then
      match rest with
      | [] => some (addComponents tokens)
      | c :: rest => if isSeparator c then tokenize (some c) (addComponents tokens) rest else none
    else none
  | '*' :: rest => tokenize (some '*') (tokens ++ [.anyText]) rest
  | '[' :: rest =>
    match h : set? rest with
    | some (t, after) =>
      have := length_of_set? h
      tokenize (some ']') (tokens ++ [t]) after
    | none => none
  | c :: rest => tokenize (some c) (tokens ++ [.char c]) rest
termination_by cs => cs.length

/-- Whether `rest` matches some text that is left after giving up characters from the front: any
number of them, or with `whole` only up to and including a separator, or all. -/
def matchesSuffix (rest : List Char → Bool) (whole : Bool) : List Char → Bool
  | [] => false
  | c :: cs => ((!whole || isSeparator c || cs.isEmpty) && rest cs) || matchesSuffix rest whole cs

def matchTokens : List Token → List Char → Bool
  | [], cs => cs.isEmpty
  | .anyText :: ts, cs => matchTokens ts cs || matchesSuffix (matchTokens ts) false cs
  | .anyComponents :: ts, cs => matchTokens ts cs || matchesSuffix (matchTokens ts) true cs
  | .char d :: ts, c :: cs => c == d && matchTokens ts cs
  | .anyChar :: ts, _ :: cs => matchTokens ts cs
  | .within set :: ts, c :: cs => set.any (·.contains c) && matchTokens ts cs
  | .outside set :: ts, c :: cs => !set.any (·.contains c) && matchTokens ts cs
  | _ :: _, [] => false

end Glob

structure Glob where
  tokens : List Glob.Token
  deriving DecidableEq, Repr, Inhabited

namespace Glob

def parse? (text : String) : Option Glob := (tokenize none [] text.toList).map Glob.mk

def isMatch (g : Glob) (name : String) : Bool := matchTokens g.tokens name.toList

/-- A library for patterns. It knows which texts are patterns, and of each the names that it matches. -/
abbrev Library := String → Option (String → Bool)

/-- The library that is used. -/
def library : Library := fun text => (parse? text).map isMatch

end Glob

end TestEngine

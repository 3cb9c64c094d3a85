import TestEngine.Text.Hex
import TestEngine.Text.Split

/-!
Hierarchical identifiers such as `[engine:demo]/[class:Calc]/[method:adds]`. The characters with a
meaning in the written form are escaped, so that the written form can be read back.
-/

namespace TestEngine

structure Segment where
  kind : String
  value : String
  deriving DecidableEq, Repr, Inhabited, Hashable

/-- A path of segments from the root of a tree to a node. -/
structure UniqueId where
  segments : List Segment
  deriving DecidableEq, Repr, Inhabited, Hashable

namespace UniqueId

/-- The characters that are escaped: the escape itself and those that delimit parts. -/
def isReserved (c : Char) : Bool :=
  c == '%' || c == '/' || c == '[' || c == ']' || c == ':'

/-- A reserved character is written as `%` and two capital hexadecimal digits. -/
def encode : List Char → List Char
  | [] => []
  | c :: cs =>
    if isReserved c then '%' :: Hex.digit (c.toNat / 16) :: Hex.digit (c.toNat % 16) :: encode cs
    else c :: encode cs

/-- The character an escape stands for; its number is read from the digits after `%`. -/
def escaped? (digits : List Char) : Option Char :=
  match Hex.number? digits with
  | none => none
  | some n => if n.isValidChar then some (Char.ofNat n) else none

/-- Reads escapes. After `%` up to two characters are taken as digits, fewer at the end. -/
def decode : List Char → Option (List Char)
  | [] => some []
  | c :: cs =>
    if c = '%' then
      match cs with
      | a :: b :: cs =>
        match escaped? [a, b], decode cs with
        | some c, some r => some (c :: r)
        | _, _ => none
      | [a] => (escaped? [a]).map fun c => [c]
      | [] => none
    else (decode cs).map (c :: ·)

def root (kind value : String) : UniqueId := ⟨[⟨kind, value⟩]⟩

def append (id : UniqueId) (kind value : String) : UniqueId := ⟨id.segments ++ [⟨kind, value⟩]⟩

/-- The identifier without its last segment; a single segment has no parent. -/
def parent? (id : UniqueId) : Option UniqueId :=
  if id.segments.length < 2 then none else some ⟨id.segments.dropLast⟩

def last? (id : UniqueId) : Option Segment := id.segments.getLast?

/-- Whether `p` leads to `id`, every identifier leading to itself. -/
def hasPrefix (id p : UniqueId) : Bool := p.segments.isPrefixOf id.segments

/-- Identifiers have segments, and no segment has an empty kind. -/
def isWellFormed (id : UniqueId) : Bool :=
  !id.segments.isEmpty && id.segments.all (!·.kind.isEmpty)

theorem isWellFormed_iff {id : UniqueId} :
    id.isWellFormed = true ↔ id.segments ≠ [] ∧ ∀ s ∈ id.segments, s.kind ≠ "" := by
  simp [isWellFormed]

def renderSegment (s : Segment) : List Char :=
  '[' :: encode s.kind.toList ++ ':' :: encode s.value.toList ++ [']']

/-- Segments are joined by `/`. -/
def renderChars : List Segment → List Char
  | [] => []
  | [s] => renderSegment s
  | s :: t :: r => renderSegment s ++ '/' :: renderChars (t :: r)

def render (id : UniqueId) : String := String.ofList (renderChars id.segments)

/-- The inside of a part that is enclosed in brackets. -/
def unbracket : List Char → Option (List Char)
  | '[' :: cs => if cs.getLast? = some ']' then some cs.dropLast else none
  | _ => none

def parseSegment? (part : List Char) : Option Segment := do
  let inner ← unbracket part
  let (kind, value) ← Text.splitOnce ':' inner
  if kind.isEmpty then none
  else return ⟨String.ofList (← decode kind), String.ofList (← decode value)⟩

/-- Reads a written identifier; `none` if any part of it is malformed. -/
def parse? (text : String) : Option UniqueId :=
  if text.isEmpty then none
  else ((Text.split '/' text.toList).mapM parseSegment?).map UniqueId.mk

/-- Segments compare by kind and then by value, both in the order of their code points. -/
def compareSegments : List Segment → List Segment → Ordering
  | [], [] => .eq
  | [], _ :: _ => .lt
  | _ :: _, [] => .gt
  | s :: ss, t :: ts =>
    (compare s.kind t.kind).then <| (compare s.value t.value).then (compareSegments ss ts)

instance : Ord UniqueId := ⟨fun a b => compareSegments a.segments b.segments⟩

end UniqueId

end TestEngine

import TestEngine.Action
import TestEngine.Text.Described

/-!
Lazy sequences that own something to release. Elements are drawn one at a time; closing runs the
close actions once and ends the sequence.
-/

namespace TestEngine

inductive Item (α : Type) where
  | value (value : α)
  | error (e : TestError)
  | panic (payload : PanicPayload)
  deriving Inhabited

/-- One draw: what it does to the user's state, the notes it leaves, and what it yields. Which item
that is has been settled before; only the effect may depend on the state. -/
structure Draw (σ ν α : Type) where
  effect : σ → List ν × σ := fun s => ([], s)
  item : Item α

inductive Source (σ ν α : Type) where
  | listed (draws : List (Draw σ ν α))
  | endless (draw : Nat → Draw σ ν α)

/-- A source, the actions that release what it uses, and whether they have run. -/
structure Stream (σ ν α : Type) where
  source : Source σ ν α
  onClose : List (Action σ ν Unit) := []
  closed : Bool := false

variable {σ ν α β : Type}

namespace Item

def outcome : Item α → Except Fault α
  | .value a => .ok a
  | .error e => .error (.error e)
  | .panic p => .error (.panic p)

end Item

namespace Draw

def ofValue (a : α) : Draw σ ν α := { item := .value a }

/-- Draws and then turns the value, if there is one, into a draw of its own. -/
def bind (d : Draw σ ν α) (f : α → Draw σ ν β) : Draw σ ν β :=
  match d.item with
  | .value a =>
    { effect := fun s =>
        let (notes, s) := d.effect s
        let (more, s) := (f a).effect s
        (notes ++ more, s)
      item := (f a).item }
  | .error e => { effect := d.effect, item := .error e }
  | .panic p => { effect := d.effect, item := .panic p }

end Draw

namespace Source

def bind (f : α → Draw σ ν β) : Source σ ν α → Source σ ν β
  | .listed draws => .listed (draws.map (·.bind f))
  | .endless draw => .endless fun i => (draw i).bind f

/-- Every value with its number among the draws, counted from one. -/
def number : Source σ ν α → Source σ ν (Nat × α)
  | .listed draws => .listed (draws.mapIdx fun i d => d.bind fun a => .ofValue (i + 1, a))
  | .endless draw => .endless fun i => (draw i).bind fun a => .ofValue (i + 1, a)

/-- The draws of the second source follow those of the first, if the first has an end. -/
def append : Source σ ν α → Source σ ν α → Source σ ν α
  | .listed first, .listed second => .listed (first ++ second)
  | .listed first, .endless second =>
    .endless fun i => if h : i < first.length then first[i] else second (i - first.length)
  | .endless draw, _ => .endless draw

/-- The next draw and the source behind it. -/
def next? : Source σ ν α → Option (Draw σ ν α × Source σ ν α)
  | .listed [] => none
  | .listed (d :: rest) => some (d, .listed rest)
  | .endless draw => some (draw 0, .endless fun i => draw (i + 1))

end Source

namespace Stream

def ofDraws (draws : List (Draw σ ν α)) : Stream σ ν α := { source := .listed draws }

def ofList (values : List α) : Stream σ ν α := ofDraws (values.map .ofValue)

def empty : Stream σ ν α := ofDraws []

def addClose (s : Stream σ ν α) (action : Action σ ν Unit) : Stream σ ν α :=
  { s with onClose := s.onClose ++ [action] }

/-- Transforms every value as it is drawn. The new stream owns the source and the close actions. -/
def bind (s : Stream σ ν α) (f : α → Draw σ ν β) : Stream σ ν β :=
  { source := s.source.bind f, onClose := s.onClose }

def map (s : Stream σ ν α) (f : α → β) : Stream σ ν β := s.bind fun a => .ofValue (f a)

/-- Transforms every value together with its number, counted from one. -/
def mapNumbered (s : Stream σ ν α) (f : Nat → α → β) : Stream σ ν β :=
  { source := s.source.number.bind fun (i, a) => .ofValue (f i a), onClose := s.onClose }

/-- One stream behind the other; closing it runs the close actions of both. -/
def chain (first second : Stream σ ν α) : Stream σ ν α :=
  { source := first.source.append second.source, onClose := first.onClose ++ second.onClose }

/-- Draws the next item. A closed stream has none. -/
def next (s : Stream σ ν α) : Option (Draw σ ν α × Stream σ ν α) :=
  if s.closed then none
  else s.source.next?.map fun (d, source) => (d, { s with source })

/-- What closing does; nothing if the stream is closed already. -/
def release (s : Stream σ ν α) : Action σ ν Unit :=
  if s.closed then .pure () else .all s.onClose

def close (s : Stream σ ν α) : Stream σ ν α :=
  if s.closed then s else { s with onClose := [], closed := true }

def describe (s : Stream σ ν α) : String :=
  Text.record "CloseableStream"
    [("close_actions", toString s.onClose.length), ("closed", Text.ofBool s.closed)]

end Stream

end TestEngine

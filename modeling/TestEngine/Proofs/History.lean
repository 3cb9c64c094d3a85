import TestEngine.Execution.Tree

/-! Histories of runs: the trace put together again from whole steps and whole visits to nodes. What a
node reports of itself stands directly in its visit, and a mark belongs to the step it begins or ends. -/
namespace TestEngine
variable {σ ν : Type}

/-- What a node does without entering another: code of the user within steps of the engine. -/
inductive Act (ν : Type) where
  | note (n : ν)
  | published (node : Node) (values : Dictionary String)
  /-- A step with what happens inside, and the fault it raises, if any. -/
  | step (s : Step) (inside : List (Act ν)) (fault : Option Fault)
  /-- A step within which the run goes no further. -/
  | cut (s : Step) (inside : List (Act ν))

/-- What a node reports of itself. -/
inductive Report where
  | started
  | skipped (reason : String)
  | finished (r : ExecutionResult)

def Report.kind : Report → EventKind
  | .started => .started
  | .skipped reason => .skipped reason
  | .finished r => .finished r

/-- The part of a frame that stays the same as long as the frame is there. -/
structure Site (σ ν : Type) where
  descriptor : Descriptor σ ν
  registry : Registry (Extension σ ν)
  lifecycle : Lifecycle
  held : List String

def Frame.site (f : Frame σ ν) : Site σ ν := ⟨f.descriptor, f.registry, f.lifecycle, f.held⟩

/-- A site with the trees below its node. -/
structure Place (σ ν : Type) extends Site σ ν where
  below : List (TestTree σ ν)

inductive Manner where
  | executed
  /-- It is reported as skipped because of a node above it. -/
  | passedOver (reason : String)
  /-- A test factory or a dynamic container has made it. -/
  | made

inductive Leaving where
  | ended
  /-- A panic leaves the node and goes on above it. -/
  | torn (payload : PanicPayload)
  /-- The whole run goes no further within the visit. -/
  | stuck

/-- A visit to a node, apart from what happens inside. -/
structure Visit (σ ν : Type) where
  place : Place σ ν
  manner : Manner
  /-- Whether the node is made at run time, and so announced. -/
  announced : Bool
  /-- Exclusive resources taken for the visit. -/
  locks : List String
  leaving : Leaving

inductive Deed (σ ν : Type) where
  | act (a : Act ν)
  | report (r : Report)
  | visit (v : Visit σ ν) (inside : List (Deed σ ν))

namespace Leaving

/-- How a visit is left within which the run is broken off. -/
def of : Halt → Leaving
  | .panicked payload => .torn payload
  | .late | .blocked | .endless | .nesting => .stuck

end Leaving

namespace Visit

abbrev descriptor (v : Visit σ ν) : Descriptor σ ν := v.place.descriptor

abbrev id (v : Visit σ ν) : UniqueId := v.place.descriptor.id

def announcement (v : Visit σ ν) : List (Entry ν) :=
  if v.announced then [.event (.of v.descriptor.node .registered)] else []

/-- What is marked before anything of the node happens. -/
def opening (v : Visit σ ν) : List (Entry ν) := if v.locks.isEmpty then [] else [.locked v.id v.locks]

/-- What is marked behind all that happens in the node. -/
def closing (v : Visit σ ν) : List (Entry ν) :=
  match v.leaving with
  | .ended => if v.locks.isEmpty then [] else [.unlocked v.id]
  | .torn _ | .stuck => []

end Visit

namespace Act

mutual
def entries (id : UniqueId) : Act ν → List (Entry ν)
  | .note n => [.note n]
  | .published node values => [.event (.of node (.entry values))]
  | .step s inside fault =>
    .step id s .began :: (entriesAll id inside ++ [.step id s (.ended fault)])
  | .cut s inside => .step id s .began :: (entriesAll id inside ++ [.step id s .cut])
def entriesAll (id : UniqueId) : List (Act ν) → List (Entry ν)
  | [] => []
  | a :: as => entries id a ++ entriesAll id as
end

theorem entriesAll_append (id : UniqueId) (as bs : List (Act ν)) :
    entriesAll id (as ++ bs) = entriesAll id as ++ entriesAll id bs := by
  induction as with
  | nil => rfl
  | cons a as ih => simp only [List.cons_append, entriesAll, ih, List.append_assoc]

end Act

namespace Deed

mutual
def entries (node : Node) : Deed σ ν → List (Entry ν)
  | .act a => a.entries node.id
  | .report r => [.event (.of node r.kind)]
  | .visit v inside =>
    v.announcement ++ v.opening ++ entriesAll v.descriptor.node inside ++ v.closing
def entriesAll (node : Node) : List (Deed σ ν) → List (Entry ν)
  | [] => []
  | d :: ds => entries node d ++ entriesAll node ds
end

theorem entriesAll_append (node : Node) (ds es : List (Deed σ ν)) :
    entriesAll node (ds ++ es) = entriesAll node ds ++ entriesAll node es := by
  induction ds with
  | nil => rfl
  | cons d ds ih => simp only [List.cons_append, entriesAll, ih, List.append_assoc]

theorem entriesAll_act (node : Node) (as : List (Act ν)) :
    entriesAll (σ := σ) node (as.map .act) = Act.entriesAll node.id as := by
  induction as with
  | nil => rfl
  | cons a as ih => simp only [List.map_cons, entriesAll, entries, Act.entriesAll, ih]

/-- A law of single visits holds for a deed and for all that happens inside. The law is given the places
above a visit, nearest first, the visit, and what happens inside. -/
inductive Everywhere (L : List (Place σ ν) → Visit σ ν → List (Deed σ ν) → Prop) :
    List (Place σ ν) → Deed σ ν → Prop where
  | act : Everywhere L path (.act a)
  | report : Everywhere L path (.report r)
  | visit : L path v inside → (∀ d ∈ inside, Everywhere L (v.place :: path) d) →
      Everywhere L path (.visit v inside)

theorem Everywhere.mono {L M : List (Place σ ν) → Visit σ ν → List (Deed σ ν) → Prop}
    (h : Everywhere L path d) (implies : ∀ {path v inside}, L path v inside → M path v inside) :
    Everywhere M path d := by
  induction h with
  | act => exact .act
  | report => exact .report
  | visit law _ ih => exact .visit (implies law) ih

/-- What is true of a visit because of a law that holds there and inside. -/
theorem Everywhere.and {L M : List (Place σ ν) → Visit σ ν → List (Deed σ ν) → Prop}
    (first : Everywhere L path d) (second : Everywhere M path d) :
    Everywhere (fun path v inside => L path v inside ∧ M path v inside) path d := by
  induction first with
  | act => exact .act
  | report => exact .report
  | visit law _ ih =>
    cases second with
    | visit law' inside => exact .visit ⟨law, law'⟩ fun d member => ih d member (inside d member)

theorem Everywhere.strengthen {L P : List (Place σ ν) → Visit σ ν → List (Deed σ ν) → Prop}
    (h : Everywhere L path d)
    (implies : ∀ {path v inside}, L path v inside → (∀ d ∈ inside, Everywhere L (v.place :: path) d) →
      P path v inside) : Everywhere (fun path v inside => L path v inside ∧ P path v inside) path d := by
  induction h with
  | act => exact .act
  | report => exact .report
  | visit law inside ih => exact .visit ⟨law, implies law inside⟩ ih

end Deed

end TestEngine

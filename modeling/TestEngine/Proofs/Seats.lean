import TestEngine.Proofs.Idling

/-! Paths of nodes with the chains they hold. The nearest node that holds a chain hands it down; what it is
missing are instances of the classes in between. -/
namespace TestEngine
variable {σ ν : Type}

/-- A node on the path of the run, with the chain of instances that it holds. -/
structure Seat (σ ν : Type) extends Place σ ν where
  chain : Option (List Level)

namespace Seat

def stand (s : Seat σ ν) : Site σ ν × Option (List Level) := (s.toSite, s.chain)

def holding (s : Seat σ ν) (chain : Option (List Level)) : Seat σ ν := { s with chain }

theorem holding_chain (s : Seat σ ν) : s.holding s.chain = s := rfl

/-- A class that has one instance for all its tests. -/
def PerClass (s : Seat σ ν) : Prop := s.lifecycle = .perClass ∧ ∃ c, s.descriptor.role = .testClass c

end Seat

/-- The frames of a world are those of the nodes of a path, with the chains that are held there. -/
def World.StandsAt (w : World σ ν) (seats : List (Seat σ ν)) : Prop :=
  w.frames.map Frame.stand = seats.map Seat.stand

def enclosing (seats : List (Seat σ ν)) : List (TestClass σ ν) :=
  (seats.filterMap (·.descriptor.testClass?)).reverse

def inherited (seats : List (Seat σ ν)) : List Level := (seats.findSome? (·.chain)).getD []

/-- The classes below the nearest node that holds a chain, outermost first. -/
def missing : List (Seat σ ν) → List (TestClass σ ν)
  | [] => []
  | s :: above =>
    match s.chain with
    | some _ => []
    | none => missing above ++ s.descriptor.testClass?.toList

section
variable {s : Seat σ ν} {above : List (Seat σ ν)}

theorem inherited_held {chain : List Level} (held : s.chain = some chain) : inherited (s :: above) = chain := by
  simp [inherited, held]

theorem inherited_none (none : s.chain = none) : inherited (s :: above) = inherited above := by
  simp [inherited, none]

theorem missing_held {chain : List Level} (held : s.chain = some chain) : missing (s :: above) = [] := by
  simp [missing, held]

theorem missing_none (none : s.chain = none) :
    missing (s :: above) = missing above ++ s.descriptor.testClass?.toList := by
  simp [missing, none]

theorem enclosing_cons : enclosing (s :: above) = enclosing above ++ s.descriptor.testClass?.toList := by
  cases found : s.descriptor.testClass? <;> simp [enclosing, found]

end

/-- Below a path a node is the root of the tree, or declared below the node above, or made there at run time. -/
def Joins (tree : TestTree σ ν) (d : Descriptor σ ν) (below : List (TestTree σ ν)) : List (Seat σ ν) → Prop
  | [] => .node d below = tree
  | p :: _ => .node d below ∈ p.below ∨ d.role = .dynamic ∧ below = []

theorem Joins.made {tree : TestTree σ ν} {d : Descriptor σ ν} {s : Seat σ ν} {above : List (Seat σ ν)}
    (role : d.role = .dynamic) : Joins tree d [] (s :: above) := Or.inr ⟨role, rfl⟩

/-- What a node of a path is held to: it has its place in the tree; a class has the lifecycle it declares, or the
default; and a chain has one instance for each class around, outermost first. -/
structure Seat.Fits (settings : Settings) (tree : TestTree σ ν) (s : Seat σ ν) (above : List (Seat σ ν)) :
    Prop where
  joins : Joins tree s.descriptor s.below above
  lifecycle : ∀ c, s.descriptor.role = .testClass c →
    s.lifecycle = c.lifecycle.getD settings.defaultLifecycle
  named : ∀ chain, s.chain = some chain →
    chain.map (·.className) = (enclosing (s :: above)).map (·.name)

/-- A path on which nodes below can be executed: of its nodes those hold chains that are classes with one
instance for all tests. -/
inductive Seated (settings : Settings) (tree : TestTree σ ν) : List (Seat σ ν) → Prop where
  | nil : Seated settings tree []
  | cons (s : Seat σ ν) (above : List (Seat σ ν)) : s.Fits settings tree above →
      (s.chain.isSome ↔ s.PerClass) → Seated settings tree above → Seated settings tree (s :: above)

/-- What is inherited and what is missing make up all classes of the path. -/
theorem Seated.names {settings : Settings} {tree : TestTree σ ν} {seats : List (Seat σ ν)}
    (h : Seated settings tree seats) :
    (inherited seats).map (·.className) ++ (missing seats).map (·.name) = (enclosing seats).map (·.name) := by
  induction h with
  | nil => rfl
  | cons s above fits _ _ ih =>
    cases held : s.chain with
    | some chain => simpa [inherited_held held, missing_held held] using fits.named chain held
    | none =>
      rw [inherited_none held, missing_none held, enclosing_cons, List.map_append, List.map_append,
        ← List.append_assoc, ih]

theorem pending_eq {w : World σ ν} {seats : List (Seat σ ν)} (h : w.StandsAt seats) :
    Execution.pending w.frames = (missing seats, inherited seats) := by
  unfold World.StandsAt at h
  generalize w.frames = frames at h
  induction seats generalizing frames with
  | nil =>
    cases frames with
    | nil => rfl
    | cons => contradiction
  | cons s above ih =>
    cases frames with
    | nil => contradiction
    | cons f frames =>
      obtain ⟨same, rest⟩ := List.cons.inj h
      have chain : f.instances = s.chain := congrArg Prod.snd same
      have descriptor : f.descriptor = s.descriptor := congrArg (·.1.descriptor) same
      rw [Execution.pending, chain]
      cases held : s.chain with
      | some chain => simp [inherited_held held, missing_held held]
      | none => simp [inherited_none held, missing_none held, ih frames rest, descriptor]

theorem World.StandsAt.currentId {w : World σ ν} {s : Seat σ ν} {above : List (Seat σ ν)}
    (h : w.StandsAt (s :: above)) : w.currentId = s.descriptor.id := by
  unfold World.StandsAt at h
  unfold World.currentId
  cases frames : w.frames with
  | nil => simp [frames] at h
  | cons f fs =>
    rw [frames] at h
    exact congrArg (·.1.descriptor.id) (List.cons.inj h).1

end TestEngine

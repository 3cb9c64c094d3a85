import TestEngine.Proofs.Arrangements

/-! Exclusive resources. A node takes all that its static tree declares at once, and only where none is held above
it: from there on down everything declared is held already. So no node ever waits for a resource while another that
was taken before is held on its path. -/
namespace TestEngine
variable {σ ν : Type}

open Deed Execution

/-- What a visit takes and holds below nodes that have taken the resources `held`. -/
structure Visit.LockedBelow (held : List String) (v : Visit σ ν) : Prop where
  recorded : v.Runs → v.place.held = held ++ v.locks
  /-- Whatever a node declares that is run has been taken for it or for a node above. -/
  covered : v.Runs → ∀ name ∈ v.descriptor.locks, name ∈ held ++ v.locks
  /-- Resources are taken for a node that is executed and declares some, and only where none are held above. -/
  taken : v.locks ≠ [] ↔ v.manner = .executed ∧ v.descriptor.locks ≠ [] ∧ held = []
  /-- They are all that is declared in its static tree, each once and in order. -/
  whole : v.locks ≠ [] → v.locks.Pairwise (· < ·) ∧
    ∀ name, name ∈ v.locks ↔ ∃ d ∈ (TestTree.node v.descriptor v.place.below).preorder, name ∈ d.locks

/-- All visits take their resources so, the deed itself being done below nodes that have taken `held`. -/
inductive Deed.Locked : List String → Deed σ ν → Prop where
  | act : Locked held (.act a)
  | report : Locked held (.report r)
  | visit : v.LockedBelow held → (∀ d ∈ inside, Locked (held ++ v.locks) d) → Locked held (.visit v inside)

theorem mem_lockOrder {names held : List String} {name : String} :
    name ∈ lockOrder names held ↔ name ∈ names ∧ name ∉ held := by
  simp [lockOrder, mem_sortDistinct]

theorem locksToTake_eq_nil {d : Descriptor σ ν} {subtree held : List String}
    (declared : ∀ name ∈ d.locks, name ∈ subtree) :
    locksToTake d subtree held = [] ↔ ∀ name ∈ d.locks, name ∈ held := by
  unfold locksToTake
  split
  · rename_i all
    exact ⟨fun _ => by simpa using all, fun _ => rfl⟩
  · rename_i missing
    refine ⟨fun none name member => ?_, fun all => absurd (by simpa using all) missing⟩
    by_contra outside
    have taken : name ∈ lockOrder subtree held := mem_lockOrder.mpr ⟨declared name member, outside⟩
    rw [none] at taken
    contradiction

theorem locksToTake_of_ne_nil {d : Descriptor σ ν} {subtree held : List String}
    (taken : locksToTake d subtree held ≠ []) : locksToTake d subtree held = lockOrder subtree held := by
  unfold locksToTake at taken ⊢
  split
  · rename_i all
    rw [if_pos all] at taken
    contradiction
  · rfl

namespace Visit

theorem mem_declared {v : Visit σ ν} {name : String} :
    name ∈ v.declared ↔ ∃ d ∈ (TestTree.node v.descriptor v.place.below).preorder, name ∈ d.locks :=
  List.mem_flatMap

theorem own_declared {v : Visit σ ν} : ∀ name ∈ v.descriptor.locks, name ∈ v.declared := fun _ member =>
  mem_declared.mpr ⟨v.descriptor, by simp [TestTree.preorder], member⟩

/-- What is declared in the tree of a node is declared in that of the node above. -/
theorem declared_of_child {u v : Visit σ ν} (child : .node u.descriptor u.place.below ∈ v.place.below) :
    ∀ name ∈ u.declared, name ∈ v.declared := by
  intro name member
  obtain ⟨d, among, holds⟩ := mem_declared.mp member
  refine mem_declared.mpr ⟨d, ?_, holds⟩
  rw [TestTree.preorder, TestTree.preorderAll_eq]
  exact List.mem_cons_of_mem _ (List.mem_flatMap.mpr ⟨_, child, among⟩)

end Visit

def Visit.Provided (held : List String) (v : Visit σ ν) : Prop := held = [] ∨ ∀ name ∈ v.declared, name ∈ held

section
variable {env : Environment σ ν} {path : List (Place σ ν)} {v u : Visit σ ν} {held : List String}

theorem Secured.lockedBelow (h : Secured path v) (above : v.Runs → heldAbove path = held ∧ v.Provided held) :
    v.LockedBelow held := by
  by_cases executed : v.manner = .executed
  · have runs : v.Runs := fun reason => by simp [executed]
    obtain ⟨rfl, provided⟩ := above runs
    have locks := h.executed executed
    have none : locksToTake v.descriptor v.declared (heldAbove path) = [] ↔ _ := locksToTake_eq_nil v.own_declared
    -- Something is missing only where all that the tree declares is.
    have free (taken : v.locks ≠ []) : heldAbove path = [] := by
      refine provided.resolve_right fun all => taken ?_
      rw [locks, none]
      exact fun name member => all name (v.own_declared name member)
    refine ⟨fun _ => h.held runs, fun _ name member => ?_,
      ⟨fun taken => ⟨executed, fun empty => taken ?_, free taken⟩, ?_⟩, fun taken => ?_⟩
    · by_cases above : name ∈ heldAbove path
      · exact List.mem_append_left _ above
      · refine List.mem_append_right _ ?_
        have taken : locksToTake v.descriptor v.declared (heldAbove path) ≠ [] := fun empty =>
          above (none.mp empty name member)
        rw [locks, locksToTake_of_ne_nil taken]
        exact mem_lockOrder.mpr ⟨v.own_declared name member, above⟩
    · rw [locks, none, empty]
      exact fun _ => nofun
    · rintro ⟨_, declares, empty⟩ nothing
      rw [locks, none, empty] at nothing
      exact declares (List.eq_nil_iff_forall_not_mem.mpr fun name member => List.not_mem_nil (nothing name member))
    · have all := locksToTake_of_ne_nil (locks ▸ taken)
      rw [locks, all, free taken]
      exact ⟨sortDistinct_sorted _, fun name => by rw [mem_lockOrder, v.mem_declared]; simp⟩
  · have free := h.others executed
    refine ⟨fun runs => ?_, fun runs name member => ?_, ?_, fun taken => absurd free taken⟩
    · obtain ⟨rfl, _⟩ := above runs
      exact h.held runs
    · have made : v.manner = .made := by
        cases manner : v.manner with
        | executed => exact absurd manner executed
        | made => rfl
        | passedOver reason => exact absurd manner (runs reason)
      rw [h.undeclared (.inr made)] at member
      contradiction
    · simp [free, executed]

/-- Below a node that runs, what is held is what it holds, and provides for each node there. -/
theorem FullLaw.provides {inside : List (Deed σ ν)} (law : FullLaw timed env path v inside)
    (above : v.Runs → heldAbove path = held ∧ v.Provided held) (member : .visit u us ∈ inside)
    (below : FullLaw timed env (v.place :: path) u us) (runs : u.Runs) :
    heldAbove (v.place :: path) = held ++ v.locks ∧ u.Provided (held ++ v.locks) := by
  have running : v.Runs := fun reason passed =>
    have ⟨other, manner⟩ := law.passes reason passed u us member
    runs other manner
  obtain ⟨rfl, provided⟩ := above running
  refine ⟨law.secured.held running, ?_⟩
  cases announced : u.announced with
  | true =>
    have alone : u.place.below = [] := (below.dynamic announced).2
    refine .inr fun name declared => ?_
    obtain ⟨d, among, holds⟩ := Visit.mem_declared.mp declared
    rw [alone, TestTree.preorder, TestTree.preorderAll, List.mem_singleton] at among
    rw [among, below.secured.undeclared (.inl announced)] at holds
    contradiction
  | false =>
    have child := u.declared_of_child (below.declared announced v.place rfl)
    by_cases free : v.locks = []
    · rw [free, List.append_nil]
      exact provided.imp_right fun all name declared => all name (child name declared)
    · have whole := (law.secured.lockedBelow above).whole free
      refine .inr fun name declared => List.mem_append_right _ ?_
      exact (whole.2 name).mpr (Visit.mem_declared.mp (child name declared))

theorem Deed.Everywhere.locked {d : Deed σ ν} (lawful : Everywhere (FullLaw timed env) path d)
    (above : ∀ v inside, d = .visit v inside → v.Runs → heldAbove path = held ∧ v.Provided held) : d.Locked held := by
  induction lawful generalizing held with
  | act => exact .act
  | report => exact .report
  | @visit path v inside law lawful ih =>
    have here := above v inside rfl
    refine .visit (law.secured.lockedBelow here) fun d member => ih d member ?_
    rintro u us rfl
    cases lawful _ member with
    | visit below _ => exact law.provides here member below

end

section
variable {c : Configuration} {extensions : List (Declared σ ν)} {tree : TestTree σ ν} {user : σ}
  {run : Run σ ν}

/-- In every run, with parallel execution or without, each node that is run has all that it declares, from itself or
from a node above. Resources are taken only below nodes that have taken none, and then all at once and in order. -/
theorem locks_taken_at_once (executed : execute c extensions tree user = .ok run) :
    ∃ registry v inside, rootRegistry extensions = .ok registry ∧ run.ToldBy tree v inside ∧
      Deed.Everywhere (Law (environment c registry)) [] (.visit v inside) ∧ (Deed.visit v inside).Locked [] := by
  obtain ⟨registry, v, inside, registered, told, lawful⟩ := fully_lawful_history executed
  refine ⟨registry, v, inside, registered, told, lawful.mono fun law => law.toLaw, lawful.locked ?_⟩
  exact fun _ _ _ _ => ⟨rfl, .inl rfl⟩

/-- The resources that are taken in a run, in the order in which that happens. -/
def Run.acquisitions (run : Run σ ν) : List (List String) :=
  run.trace.filterMap fun
    | .locked _ names => some names
    | _ => none

/-- Two classes whose tests declare what the other class does. A node is made at run time in each. -/
def Blueprint.crossed : Blueprint Unit String :=
  let method {α : Type} (name : String) (outcome : α) : Method Unit String α :=
    { signature := { name }, body := fun _ => .done (.ok outcome) }
  let locked (name own nested : String) : Blueprint Unit String :=
    .node { Outline.ofClass { name, constructor := method name ⟨name, name ++ "#1"⟩ } with locks := [own] } [
      .node { Outline.ofTest (method "crosses" ()) with locks := [nested, own] } [],
      .node (Outline.ofFactory { method := method "makes" (.ofList [.test "made" (.done (.ok ()))]) }) []]
  .node (.engine "engine") [locked "First" "x" "y", locked "Second" "y" "x"]

theorem locks_taken_at_once_sample : ∃ run, execute .empty [] Blueprint.crossed.build () = .ok run ∧
    run.halt = none ∧ run.acquisitions = [["x", "y"], ["x", "y"]] ∧
    ∃ registry v inside, rootRegistry [] = .ok registry ∧ run.ToldBy Blueprint.crossed.build v inside ∧
      Deed.Everywhere (Law (environment .empty registry)) [] (.visit v inside) ∧ (Deed.visit v inside).Locked [] := by
  obtain ⟨run, executed, checked⟩ := Blueprint.executed_of_any
    (r := execute .empty [] Blueprint.crossed.build ()) (p := fun run => run.halt.isNone &&
      run.acquisitions == [["x", "y"], ["x", "y"]]) (by decide +kernel)
  rw [Bool.and_eq_true, Option.isNone_iff_eq_none, beq_iff_eq] at checked
  exact ⟨run, executed, checked.1, checked.2, locks_taken_at_once executed⟩

end
end TestEngine

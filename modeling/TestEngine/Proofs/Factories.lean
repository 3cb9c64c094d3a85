import TestEngine.Proofs.Invocations

/-! The nodes that factories make, at any depth. Each stream is run down in order by the node that it is given to: one
element is drawn, the node in it comes to its end, and only then the next is drawn. An error that is drawn ends its
own stream and counts for the node of that alone. -/
namespace TestEngine
variable {σ ν α : Type} {env : Environment σ ν} {path : List (Place σ ν)} {place : Place σ ν}
  {parent : Descriptor σ ν} {ds : List (Deed σ ν)}

open Deed Execution

/-- The values of a source up to its first element that is an error, and that error if there is one. -/
inductive Source.Supplies : Source σ ν α → List α → Option TestError → Prop where
  | all : source.next? = none → Supplies source [] none
  | failed : source.next? = some (d, rest) → d.item.outcome = .error fault → Supplies source [] (some fault.toError)
  | value : source.next? = some (d, rest) → d.item.outcome = .ok x → Supplies rest xs error →
      Supplies source (x :: xs) error

/-- There is one way only to run a source down, whatever is done with the values. -/
theorem Source.Supplies.unique {source : Source σ ν α} {xs ys : List α} {error error' : Option TestError}
    (h : source.Supplies xs error) (other : source.Supplies ys error') : xs = ys ∧ error = error' := by
  induction h generalizing ys with
  | all next => cases other <;> simp_all
  | failed next raised => cases other <;> simp_all
  | value next value _ ih =>
    cases other with
    | all next' => simp_all
    | failed next' raised => simp_all
    | value next' value' rest' =>
      rw [next, Option.some.injEq, Prod.mk.injEq] at next'
      obtain ⟨rfl, rfl⟩ := next'
      obtain ⟨rfl, rfl⟩ := ih rest'
      cases value.symm.trans value'
      exact ⟨rfl, rfl⟩

theorem Taken.supplies {Use : Descriptor σ ν → Nat → α → List (Deed σ ν) → Prop} {source : Source σ ν α}
    {xs : List α} (h : Taken none Use drawn parent source ds xs error) : source.Supplies xs error := by
  induction h with
  | enough limit => contradiction
  | exhausted next => exact .all next
  | failed _ next raised => exact .failed next raised
  | taken _ next value _ _ ih => exact .value next value ih

namespace DynamicNode

def kind : DynamicNode σ ν → NodeKind
  | .test _ _ => .test
  | .container _ _ => .container

def segment : DynamicNode σ ν → String
  | .test _ _ => "dynamic-test"
  | .container _ _ => "dynamic-container"

end DynamicNode

/-- The visit is that to a node which is made with this number below its parent. -/
def IsMade (parent : Descriptor σ ν) (x : DynamicNode σ ν × Nat) (visited : Visit σ ν × List (Deed σ ν)) : Prop :=
  visited.1.MadeAs (dynamicDescriptor parent x.1.segment x.2 x.1.displayName x.1.kind []) .made

/-- Listeners are told that the node is registered and started, then of all nodes that are made in it, and last that
it is finished. -/
def ToldWhole (visited : Visit σ ν × List (Deed σ ν)) : Prop :=
  ∃ r, log default (.visit visited.1 visited.2) =
    .of visited.1.descriptor.node .registered :: .of visited.1.descriptor.node .started ::
      (logInside visited.2 ++ [.of visited.1.descriptor.node (.finished r)])

/-- Draws take turns with the nodes that are drawn. Behind the last, or behind an error, the stream is closed. -/
inductive Alternating : List (Deed σ ν) → Prop where
  | closed : d.ClosesStream → Alternating [d]
  | failed : d.ClosesStream → Alternating [.act (.step .draw inside (some fault)), d]
  | next : Alternating rest → Alternating (.act (.step .draw inside none) :: .visit v deeds :: rest)

section
variable {node : DynamicNode σ ν}

theorem Made.isMade (h : Made parent index node ds) :
    ∃ v inside, ds = [.visit v inside] ∧ IsMade parent (node, index) (v, inside) := by
  cases h with
  | test made _ | container made _ _ => exact ⟨_, _, rfl, made⟩

theorem Visit.MadeAs.toldWhole {v : Visit σ ν} {d : Descriptor σ ν} {m : Manner} {course ending : List (Deed σ ν)}
    (made : v.MadeAs d m) (plain : Plain course) (finish : Finish v.place ending) :
    ToldWhole (v, .report .started :: course ++ ending) := by
  obtain ⟨r, last, none⟩ := finish.logged
  refine ⟨r, ?_⟩
  have announced : loggedIn v.announcement = [.of v.descriptor.node .registered] := by
    rw [Visit.announcement, made.announced]
    rfl
  simp [announced, last, none, plain.logged, Report.kind]

theorem Made.toldWhole (h : Made parent index node ds) : ∀ p ∈ visits ds, ToldWhole p := by
  cases h with
  | test made finish =>
    exact List.forall_mem_singleton.mpr (made.toldWhole (Plain.nil.act _) finish)
  | container made spent finish =>
    have plain := Plain.of_numbered (spent.numbered fun _ _ _ => Made.single)
    exact List.forall_mem_singleton.mpr (made.toldWhole plain finish)

end

section
variable {source : Source σ ν (DynamicNode σ ν)} {stream : Stream σ ν (DynamicNode σ ν)}
  {nodes : List (DynamicNode σ ν)}

theorem Taken.visited (h : Taken none Made drawn parent source ds nodes error) :
    List.Forall₂ (IsMade parent) (nodes.zipIdx (drawn + 1)) (visits ds) ∧ ∀ p ∈ visits ds, ToldWhole p := by
  induction h with
  | enough limit => contradiction
  | exhausted | failed => exact ⟨.nil, List.forall_mem_nil _⟩
  | taken _ _ _ use _ ih =>
    obtain ⟨each, told⟩ := ih
    have toldHere := use.toldWhole
    obtain ⟨v, inside, rfl, made⟩ := use.isMade
    exact ⟨.cons made each, List.forall_mem_cons.mpr ⟨toldHere _ (List.mem_singleton_self _), told⟩⟩

theorem Taken.alternating (h : Taken none Made drawn parent source ds nodes error) (closes : d.ClosesStream) :
    Alternating (ds ++ [d]) := by
  induction h with
  | enough limit => contradiction
  | exhausted => exact .closed closes
  | failed _ _ raised =>
    simp only [Draw.step, raised, faultOf]
    exact .failed closes
  | taken _ _ value use _ ih =>
    obtain ⟨v, inside, rfl, made⟩ := use.isMade
    simp only [Draw.step, value, faultOf]
    exact .next ih

structure NodesInOrder (env : Environment σ ν) (parent : Descriptor σ ν) (stream : Stream σ ν (DynamicNode σ ν))
    (nodes : List (DynamicNode σ ν)) (error closed : Option TestError) (course : List (Deed σ ν)) : Prop where
  /-- The nodes are those in the stream up to its own first error, whatever becomes of them. -/
  supplied : stream.remaining.Supplies nodes error
  /-- Each is run under its number before the next is drawn, a container by running its own stream down. -/
  ran : Spent none (Ran env) course 0 parent stream nodes
  /-- The number tells the place among all nodes from the stream, of whatever kind. -/
  visited : List.Forall₂ (IsMade parent) (nodes.zipIdx 1) (visits course)
  told : ∀ p ∈ visits course, ToldWhole p
  alternating : Alternating course
  /-- An error that is drawn counts for the node, and so does one of closing the stream. Nothing else does. -/
  raised : raised course = error.toList ++ closed.toList
  closing : ∃ user, closed = (faultOf (stream.release user).1).map (·.toError)

theorem Spent.inOrder (h : Spent none (Ran env) ds 0 parent stream nodes) :
    ∃ error closed, NodesInOrder env parent stream nodes error closed ds := by
  have made := h.mono fun _ _ _ => Ran.made
  cases made with
  | closed taken =>
    rename_i error user
    obtain ⟨visited, told⟩ := taken.visited
    have raisedByDraws := (taken.numbered fun _ _ _ => Made.single).2
    refine ⟨error, (faultOf (stream.release user).1).map (·.toError), taken.supplies, h, ?_, ?_,
      taken.alternating ⟨_, _, rfl⟩, ?_, user, rfl⟩
    · simpa using visited
    · simpa using told
    · rw [raised_append, raisedByDraws, Stream.closingStep]
      cases faultOf (stream.release user).1 <;> rfl

end

/-- The body of a factory: if its method makes a stream, that is run down. It is an error if there is no node in it,
unless something else is or the factory allows that. -/
inductive FactoryRun (env : Environment σ ν) (path : List (Place σ ν)) (place : Place σ ν) (f : Factory σ ν) :
    List (Deed σ ν) → Prop where
  | failed : Enacts env (place :: path) (invoke f.method inst).run (.error fault)
        (Act.entriesAll place.descriptor.id inside) →
      FactoryRun env path place f [.act (.step (.body f.method.name (inst.map (·.number))) inside (some fault))]
  | ran : Enacts env (place :: path) (invoke f.method inst).run (.ok stream)
        (Act.entriesAll place.descriptor.id inside) →
      NodesInOrder env place.descriptor stream nodes error closed course →
      (complaint = some (.error (noDynamicTests place.descriptor.displayName)) ↔
        nodes = [] ∧ error = none ∧ closed = none ∧ f.allowZero = false) →
      (complaint = none ↔ ¬ (nodes = [] ∧ error = none ∧ closed = none ∧ f.allowZero = false)) →
      FactoryRun env path place f
        (.act (.step (.body f.method.name (inst.map (·.number))) inside none) :: course ++
          [.act (.step .check [] complaint)])

theorem FactoryExpansion.ran {f : Factory σ ν} (h : FactoryExpansion env path place f ds) :
    FactoryRun env path place f ds := by
  cases h with
  | failed enacts => exact .failed enacts
  | @spent inst stream inside course nodes enacts spent =>
    obtain ⟨error, closed, order⟩ := spent.inOrder
    have silent : raised course = [] ↔ error = none ∧ closed = none := by
      rw [order.raised, List.append_eq_nil_iff, Option.toList_eq_nil_iff, Option.toList_eq_nil_iff]
    refine .ran enacts order ?_ ?_ <;> by_cases zero : f.allowZero <;> by_cases empty : nodes = [] <;>
      by_cases quiet : raised course = [] <;> simp_all

/-- Factories and the nodes that they make do what is told of them, unless the run goes no further within. -/
structure FactoriesInOrder (env : Environment σ ν) (path : List (Place σ ν)) (v : Visit σ ν)
    (inside : List (Deed σ ν)) : Prop where
  factory : ∀ f rest, v.descriptor.role = .factory f → v.leaving ≠ .stuck → Entered inside rest →
    v.leaving = .ended ∧ ∃ p ending, rest = p.deeds ++ ending ∧
      LeafOrder v.place.registry (FactoryRun env path v.place f) p ∧ Finish v.place ending
  test : v.manner = .made → v.descriptor.kind = .test → v.leaving ≠ .stuck → v.leaving = .ended ∧
    ∃ acts fault ending, inside = .report .started :: .act (.step .dynamicBody acts fault) :: ending ∧
      Finish v.place ending
  /-- All that counts for a container is an error of its own stream, one of closing that, and one of closing its
  store. It has no need of nodes. -/
  container : v.manner = .made → v.descriptor.kind = .container → v.leaving ≠ .stuck → v.leaving = .ended ∧
    ∃ children nodes error closed course ending, ∃ stored : Option TestError,
      inside = .report .started :: course ++ ending ∧
      NodesInOrder env v.descriptor children nodes error closed course ∧ Finish v.place ending ∧
      raised inside = error.toList ++ closed.toList ++ stored.toList
  /-- The result tells what counts for the node itself, and so nothing of the nodes that are made in it. -/
  result : ∀ r, .report (.finished r) ∈ inside → r.SumsUp (raised inside)

theorem Finish.raised (h : Finish place ds) : ∃ stored : Option TestError, Deed.raised ds = stored.toList := by
  obtain ⟨inside, fault, told, r, rfl, turns⟩ := h
  refine ⟨fault.map (·.toError), ?_⟩
  rw [List.cons_append, ← List.singleton_append, raised_append, raised_append, raised_announced turns]
  cases fault <;> rfl

theorem Law.ended_of_made {v : Visit σ ν} {inside : List (Deed σ ν)} (law : Law env path v inside)
    (made : v.manner = .made) (left : v.leaving ≠ .stuck) : v.leaving = .ended := by
  cases leaving : v.leaving with
  | ended => rfl
  | stuck => exact absurd leaving left
  | torn payload =>
    have executed := (law.torn payload leaving).1
    rw [made] at executed
    contradiction

theorem FullLaw.factoriesInOrder {v : Visit σ ν} {inside : List (Deed σ ν)} (law : FullLaw timed env path v inside) :
    FactoriesInOrder env path v inside where
  factory f rest role left entered := by
    rcases law.entered entered left with ⟨ended, _⟩ | ⟨payload, _, torn⟩
    · obtain ⟨course, ending, rfl, generates, finish, _⟩ := law.course ended entered
      cases generates with
      | template other _ => simp [role] at other
      | none _ noFactory => exact absurd role (noFactory f)
      | @factory _ p same order =>
        cases Role.factory.inj (same.symm.trans role)
        exact ⟨ended, p, ending, rfl, order.mono FactoryExpansion.ran, finish⟩
    · have noLeaf : leafBody? path v.descriptor = none := torn.leafBody?_eq_none
      simp [leafBody?, role] at noLeaf
  test made kind left := by
    have ended := law.ended_of_made made left
    cases law.made ended made with
    | test _ finish => exact ⟨ended, _, _, _, rfl, finish⟩
    | container other _ _ => simp [kind] at other
  container made kind left := by
    have ended := law.ended_of_made made left
    cases law.made ended made with
    | test other _ => simp [kind] at other
    | container _ spent finish =>
      obtain ⟨error, closed, order⟩ := spent.inOrder
      obtain ⟨stored, last⟩ := finish.raised
      exact ⟨ended, _, _, error, closed, _, _, stored, rfl, order, finish, by simp [order.raised, last]⟩
  result r reported := (law.result r reported).2

section
variable {c : Configuration} {extensions : List (Declared σ ν)} {tree : TestTree σ ν} {user : σ}
  {run : Run σ ν}

/-- In every run the nodes of each factory are run at any depth in the order in which they are drawn, every one before
the next. An error in a stream ends that stream alone. -/
theorem factories_in_order (executed : execute c extensions tree user = .ok run) :
    run.Always c extensions tree FactoriesInOrder :=
  Run.always_of_full executed fun law _ => law.factoriesInOrder

/-- A factory with three nodes. The stream of the second holds a test that fails, an empty container, and an element
that panics. -/
def Blueprint.generated : Blueprint Unit String :=
  let inner : Stream Unit String (DynamicNode Unit String) :=
    { source := .listed [.ofValue (.test "broken" (.done (.error (.failure "broke")))),
        .ofValue (.container "empty" { source := .listed [] }), { item := .panic .other },
        .ofValue (.test "lost" (.done (.ok ())))] }
  let nodes : Stream Unit String (DynamicNode Unit String) :=
    .ofList [.test "first" (.done (.ok ())), .container "group" inner, .test "last" (.done (.ok ()))]
  .node (.engine "engine") [
    .node (.ofFactory { method := { signature := { name := "nodes" }, body := fun _ => .done (.ok nodes) } }) []]

def Event.tellsFailure (e : Event) : Bool :=
  match e.kind with
  | .finished r => r.isFailed
  | _ => false

theorem factories_in_order_sample : ∃ run, execute .empty [] Blueprint.generated.build () = .ok run ∧
    run.log.map (·.displayName) = ["engine", "nodes", "first", "first", "first", "group", "group", "broken", "broken",
      "broken", "empty", "empty", "empty", "group", "last", "last", "last", "nodes", "engine"] ∧
    (run.log.filter (·.tellsFailure)).map (·.displayName) = ["broken", "group"] ∧
    run.Always .empty [] Blueprint.generated.build FactoriesInOrder := by
  obtain ⟨run, executed, checked⟩ := Blueprint.executed_of_any
    (r := execute .empty [] Blueprint.generated.build ()) (p := fun run =>
      run.log.map (·.displayName) == ["engine", "nodes", "first", "first", "first", "group", "group", "broken",
        "broken", "broken", "empty", "empty", "empty", "group", "last", "last", "last", "nodes", "engine"] &&
      (run.log.filter (·.tellsFailure)).map (·.displayName) == ["broken", "group"]) (by decide +kernel)
  rw [Bool.and_eq_true, beq_iff_eq, beq_iff_eq] at checked
  exact ⟨run, executed, checked.1, checked.2, factories_in_order executed⟩

end

end TestEngine

import TestEngine.Proofs.Instances
import TestEngine.Proofs.Phases

/-! Leave is taken of instances when their node has done all else, of the innermost first. The levels of a
chain that cannot be made whole are lost: leave is taken of none of them. -/
namespace TestEngine
variable {σ ν α β : Type}

open Deed

def shownTo (number : Nat) (trace : List (Entry ν)) : List String :=
  trace.filterMap fun
    | .step _ (.preDestroy extension n) .began => if n = number then some extension else none
    | _ => none

theorem shownTo_farewells (number : Nat) (trace : List (Entry ν)) :
    shownTo number (trace.filter Entry.isFarewell) = shownTo number trace := by
  refine filterMap_marks (fun e farewell => ?_) trace
  cases e with
  | step id s phase =>
    cases s with
    | preDestroy => cases phase <;> first | contradiction | rfl
    | _ => rfl
  | _ => rfl

/-- Where one part alone is to do with it, that part is all there is of it. -/
theorem flatMap_of_pairwise {P : α → Prop} {f : α → List β} {l : List α} {a : α}
    (apart : l.Pairwise fun x y => ¬ (P x ∧ P y)) (member : a ∈ l) (holds : P a)
    (others : ∀ b ∈ l, ¬ P b → f b = []) : l.flatMap f = f a := by
  induction l with
  | nil => contradiction
  | cons b l ih =>
    obtain ⟨first, rest⟩ := List.pairwise_cons.mp apart
    rw [List.flatMap_cons]
    rcases List.mem_cons.mp member with rfl | member
    · have none : l.flatMap f = [] := List.flatMap_eq_nil_iff.mpr fun c among =>
        others c (List.mem_cons_of_mem a among) fun also => first c among ⟨holds, also⟩
      rw [none, List.append_nil]
    · have none : f b = [] := others b (by simp) fun also => first a member ⟨also, holds⟩
      rw [none, List.nil_append]
      exact ih rest member fun c among => others c (List.mem_cons_of_mem b among)

namespace Seat

/-- What of leave is taken of one level. -/
theorem shownTo_level (id : UniqueId) (es : List (Extension σ ν)) (number n : Nat) :
    shownTo (ν := ν) number (es.map fun e => .step id (.preDestroy e.name n) .began) =
      if n = number then es.map (·.name) else [] := by
  rw [shownTo, List.filterMap_map]
  by_cases same : n = number <;> simp [same]

theorem shownTo_other {s : Seat σ ν} {created : List Level} {n : Nat}
    (other : n ∉ created.map (·.inst.number)) : shownTo n (s.farewells created) = [] := by
  rw [farewells, shownTo, List.filterMap_flatMap]
  refine List.flatMap_eq_nil_iff.mpr fun level among => ?_
  have apart : level.inst.number ≠ n := by
    rintro rfl
    exact other (List.mem_map_of_mem (List.mem_reverse.mp among))
  exact (shownTo_level _ _ n _).trans (if_neg apart)

theorem shownTo_once {s : Seat σ ν} {created : List Level} {n : Nat}
    (distinct : (created.map (·.inst.number)).Nodup) (among : n ∈ created.map (·.inst.number)) :
    shownTo n (s.farewells created) = (s.registry.extensions .instancePreDestroy).map (·.name) := by
  obtain ⟨level, member, rfl⟩ := List.mem_map.mp among
  have apart : created.reverse.Pairwise fun x y =>
      ¬ (x.inst.number = level.inst.number ∧ y.inst.number = level.inst.number) := by
    have reversed := List.nodup_reverse.mpr distinct
    rw [← List.map_reverse, List.Nodup, List.pairwise_map] at reversed
    exact reversed.imp fun different both => different (both.1.trans both.2.symm)
  have shown (l : Level) := shownTo_level s.descriptor.id (s.registry.extensions .instancePreDestroy)
    level.inst.number l.inst.number
  rw [farewells, shownTo, List.filterMap_flatMap]
  refine (flatMap_of_pairwise apart (List.mem_reverse.mpr member) rfl fun l _ other => ?_).trans ?_
  · exact (shown l).trans (if_neg other)
  · exact (shown level).trans (if_pos rfl)

end Seat

namespace Making

theorem Linked.fresh_numbers {m : Making σ ν} (linked : m.Linked) (whole : m.seat.chain.isSome) :
    m.fresh.map (·.inst.number) = m.numbers := by
  obtain ⟨chain, held⟩ := Option.isSome_iff_exists.mp whole
  obtain ⟨made, rfl, _, calls⟩ := linked.whole chain held
  rw [fresh, held, Option.getD_some, List.drop_left, numbers, calls, linked_numbers, List.map_map]
  rfl

/-- Leave is taken of what is made for the node, and of that only. -/
theorem Linked.shownTo_other {m : Making σ ν} (linked : m.Linked) {n : Nat} (other : n ∉ m.numbers) :
    shownTo n m.farewells = [] := by
  refine Seat.shownTo_other ?_
  cases held : m.seat.chain with
  | none => simp [fresh_broken held]
  | some chain => rwa [linked.fresh_numbers (by simp [held])]

theorem Linked.shownTo_own {m : Making σ ν} (linked : m.Linked) (distinct : m.numbers.Nodup) {n : Nat}
    (own : n ∈ m.numbers) : shownTo n m.farewells =
      if m.seat.chain.isSome then (m.seat.registry.extensions .instancePreDestroy).map (·.name) else [] := by
  by_cases whole : m.seat.chain.isSome
  · rw [if_pos whole]
    have same := linked.fresh_numbers whole
    exact Seat.shownTo_once (same ▸ distinct) (same ▸ own)
  · rw [if_neg whole, farewells, fresh_broken (Option.not_isSome_iff_eq_none.mp whole)]
    rfl

end Making

/-- An instance is shown once to each pre-destroy callback of the node that it is made for; if one of its chain
cannot be made, it is shown to none. -/
structure Farewelled (env : Environment σ ν) (tree : TestTree σ ν) (trace : List (Entry ν))
    (ms : List (Making σ ν)) : Prop extends Chained env tree trace ms where
  leave : LeaveTaken trace ms
  shown : ∀ m ∈ ms, ∀ n ∈ m.numbers, shownTo n trace =
    if m.seat.chain.isSome then (m.seat.registry.extensions .instancePreDestroy).map (·.name) else []

theorem Chained.farewelled {env : Environment σ ν} {tree : TestTree σ ν} {trace : List (Entry ν)}
    {ms : List (Making σ ν)} (chained : Chained env tree trace ms) (leave : LeaveTaken trace ms) :
    Farewelled env tree trace ms := by
  refine ⟨chained, leave, fun m member n own => ?_⟩
  obtain ⟨ls, perm, told⟩ := leave
  have apart : ls.Pairwise fun x y => ¬ (n ∈ x.numbers ∧ n ∈ y.numbers) := by
    refine (perm.pairwise_iff ?_).mpr ?_
    · intro x y different both
      exact different both.symm
    · refine chained.apart.imp ?_
      intro x y apart both
      exact apart n both.1 both.2
  have distinct : m.numbers.Nodup :=
    ((List.pairwise_flatMap.mp chained.ascending).1 m member).imp fun less => Nat.ne_of_lt less
  rw [← shownTo_farewells, told, shownTo, List.filterMap_flatMap]
  refine (flatMap_of_pairwise apart (perm.mem_iff.mpr member) own fun other among apart => ?_).trans ?_
  · exact (chained.sound other (perm.mem_iff.mp among)).shownTo_other apart
  · exact (chained.sound m member).shownTo_own distinct own

/-- The steps by which a node comes to have a chain of its own: a leaf makes it at once, and a class that has one
instance for all tests when its hooks are checked. -/
def makingSteps? (path : List (Place σ ν)) (p : Place σ ν) : Option (List (Step → Prop)) :=
  match p.descriptor.role, p.lifecycle with
  | .testClass _, .perClass => some (setUpSteps .perClass)
  | .testClass _, .perMethod => none
  | _, _ => (leafBody? path p.descriptor).map fun _ => [(· = .instantiation)]

/-- Leave is taken of what a node has made behind all its other steps, whatever these raise, and before the node
is finished. Only where a panic escapes from below does it not come to that. -/
def TakesLeave (path : List (Place σ ν)) (v : Visit σ ν) (inside : List (Deed σ ν)) : Prop :=
  ∀ plan rest, makingSteps? path v.place = some plan → Entered inside rest → v.leaving ≠ .stuck →
    (∀ payload, ¬ Escapes payload inside) → v.leaving = .ended ∧ ∃ making steps farewell finish,
      rest = making ++ steps ++ farewell ++ finish ∧ UntilFailure plan making ∧
      InTurn (v.place.registry.farewellSteps (created making)) farewell ∧ Finish v.place finish

section
variable {env : Environment σ ν} {path : List (Place σ ν)} {v : Visit σ ν} {inside : List (Deed σ ν)}

theorem LeafOrder.takesLeave {r : Registry (Extension σ ν)} {body : List (Deed σ ν) → Prop} {p : LeafParts σ ν}
    (order : LeafOrder r body p) (finish : List (Deed σ ν)) : ∃ steps,
      p.deeds ++ finish = p.instantiation ++ steps ++ p.farewell ++ finish ∧
      UntilFailure [(· = .instantiation)] p.instantiation ∧
      InTurn (r.farewellSteps (created p.instantiation)) p.farewell := by
  refine ⟨p.beforeEach ++ p.beforeExecution ++ p.body ++ p.afterExecution ++ p.afterEach, ?_,
    order.instantiation, order.farewell⟩
  simp [LeafParts.deeds]

theorem ClassOrder.takesLeave {settings : Settings} {place : Place σ ν} {c : TestClass σ ν} {p : ClassParts σ ν}
    (order : ClassOrder settings place c p) (finish : List (Deed σ ν)) : ∃ steps,
      p.deeds ++ finish = p.setUp ++ steps ++ p.farewell ++ finish ∧
      UntilFailure (setUpSteps place.lifecycle) p.setUp ∧
      InTurn (place.registry.farewellSteps (created p.setUp)) p.farewell := by
  refine ⟨p.beforeAll ++ p.beforeHooks ++ p.children ++ p.afterHooks ++ p.afterAll, ?_, order.setUp, order.farewell⟩
  simp [ClassParts.deeds]

theorem Law.takesLeave (law : Law env path v inside)
    (lawful : ∀ d ∈ inside, Everywhere (Law env) (v.place :: path) d) : TakesLeave path v inside := by
  intro plan rest makes entered left free
  unfold makingSteps? at makes
  split at makes
  · rename_i c role lifecycle
    obtain ⟨ended, p, finish, rfl, order, finished, _⟩ :=
      (law.classInOrder lawful c rest role entered left).1 free
    obtain ⟨steps, same, setUp, farewell⟩ := order.takesLeave finish
    rw [lifecycle, Option.some.inj makes] at setUp
    exact ⟨ended, p.setUp, steps, p.farewell, finish, same, setUp, farewell, finished⟩
  · contradiction
  · obtain ⟨body, leafy, rfl⟩ := Option.map_eq_some_iff.mp makes
    obtain ⟨ended, p, finish, rfl, order, finished⟩ := law.leafInOrder body rest leafy entered left
    rw [← law.registry] at order
    obtain ⟨steps, same, making, farewell⟩ := order.takesLeave finish
    exact ⟨ended, p.instantiation, steps, p.farewell, finish, same, making, farewell, finished⟩

end

section
variable {c : Configuration} {extensions : List (Declared σ ν)} {tree : TestTree σ ν} {user : σ}
  {run : Run σ ν}

/-- Every node that makes a whole chain takes leave of it before it is finished. In a run that no provider breaks
off by a panic each instance is shown once to each pre-destroy callback of its node, but for those of the
chains that could not be made whole, which are shown to none. -/
theorem instances_farewelled (executed : execute c extensions tree user = .ok run) :
    run.Always c extensions tree (fun _ => TakesLeave) ∧
    (run.leaving ≠ .stuck → (∀ payload, ¬ SupportPanics payload run.trace) →
      ∃ registry ms, rootRegistry extensions = .ok registry ∧
        Farewelled (environment c registry) tree run.trace ms) := by
  refine ⟨Run.always executed Law.takesLeave, fun left free => ?_⟩
  obtain ⟨registry, ms, registered, chained, leave⟩ := execute_chained executed
  exact ⟨registry, ms, registered, chained.farewelled (leave left free)⟩

/-- Of the instance numbered 1 no leave is taken, though it is made, because none of its inner class can be made. -/
theorem instances_farewelled_sample : ∃ run registry ms,
    execute .empty [] Blueprint.halfMade.build () = .ok run ∧ run.leaving ≠ .stuck ∧
    (∀ payload, ¬ SupportPanics payload run.trace) ∧ rootRegistry [] = .ok registry ∧
    Farewelled (environment .empty registry) Blueprint.halfMade.build run.trace ms ∧
    constructorCalls run.trace = [⟨"Outer", 0, none⟩, ⟨"Outer", 1, none⟩, ⟨"Inner", 2, some 1⟩] ∧
    shownTo 0 run.trace = ["Cleaner"] ∧ shownTo 1 run.trace = [] := by
  obtain ⟨run, executed, checked⟩ := Blueprint.executed_of_any (r := execute .empty [] Blueprint.halfMade.build ())
    (p := fun run => run.halt.isNone && !run.trace.any Entry.asksSupport &&
      constructorCalls run.trace == [⟨"Outer", 0, none⟩, ⟨"Outer", 1, none⟩, ⟨"Inner", 2, some 1⟩] &&
      shownTo 0 run.trace == ["Cleaner"] && shownTo 1 run.trace == []) (by decide +kernel)
  simp only [Bool.and_eq_true, Option.isNone_iff_eq_none, Bool.not_eq_true', beq_iff_eq] at checked
  obtain ⟨⟨⟨⟨halted, unasked⟩, calls⟩, first⟩, lost⟩ := checked
  have left : run.leaving ≠ .stuck := by simp [Run.leaving, halted]
  have free := not_supportPanics unasked
  obtain ⟨registry, ms, registered, farewelled⟩ := (instances_farewelled executed).2 left free
  exact ⟨run, registry, ms, executed, left, free, registered, farewelled, calls, first, lost⟩

end
end TestEngine

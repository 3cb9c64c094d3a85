import TestEngine.Proofs.Blocks
import TestEngine.Proofs.Executing
import TestEngine.Proofs.Logs

/-! What listeners are told in a run on one thread. All nodes come to their end, each under an identifier
of its own, and the log consists of their blocks. -/
namespace TestEngine
variable {σ ν : Type} {env : Environment σ ν} {settings : Settings} {path : List (Place σ ν)}
  {place : Place σ ν} {v : Visit σ ν} {inside ds es : List (Deed σ ν)}

open Deed EventKind

def Visit.tree (v : Visit σ ν) : TestTree σ ν := .node v.descriptor v.place.below

/-- All visits that are made directly inside another come to their end. They are those to the trees
declared below the node, or to nodes made at run time, each with an identifier of its own. -/
inductive Brood (v : Visit σ ν) : List (Visit σ ν × List (Deed σ ν)) → Prop where
  | declared : children.map (·.1.tree) = v.place.below → (∀ p ∈ children, p.1.leaving = .ended) →
      Brood v children
  | made : (∀ p ∈ children, p.1.announced ∧ p.1.leaving = .ended ∧
        ∃ kind value, p.1.id = v.id.append kind value) →
      (children.map (·.1.id)).Nodup → Brood v children

theorem Brood.grown {children : List (Visit σ ν × List (Deed σ ν))} (h : Brood v children)
    (grown : v.tree.Grown) (dynamic : ∀ p ∈ children, p.1.announced → p.1.place.below = []) :
    (∀ p ∈ children, p.1.leaving = .ended ∧ p.1.tree.Grown ∧ ∃ kind value, p.1.id = v.id.append kind value) ∧
    (children.map (·.1.id)).Nodup := by
  cases grown with
  | node placed siblings below =>
    cases h with
    | declared trees ended =>
      have among (p : Visit σ ν × List (Deed σ ν)) (member : p ∈ children) : p.1.tree ∈ v.place.below := by
        rw [← trees]
        exact List.mem_map_of_mem member
      refine ⟨fun p member => ⟨ended p member, below _ (among p member), placed _ (among p member)⟩, ?_⟩
      rw [← trees, List.map_map] at siblings
      exact siblings
    | made made distinct =>
      refine ⟨fun p member => ?_, distinct⟩
      obtain ⟨announced, left, place⟩ := made p member
      refine ⟨left, ?_, place⟩
      rw [Visit.tree, dynamic p member announced]
      exact .node (List.forall_mem_nil _) .nil (List.forall_mem_nil _)

namespace Deed

theorem visits_each {m : Manner} {left : Leaving → Prop} {trees : List (TestTree σ ν)}
    (h : List.Forall₂ (Visits m left) trees ds) :
    (visits ds).map (·.1.tree) = trees ∧ ∀ p ∈ visits ds, p.1.manner = m ∧ left p.1.leaving := by
  induction h with
  | nil => exact ⟨rfl, List.forall_mem_nil _⟩
  | cons visit _ ih =>
    obtain ⟨v, inside, rfl, rfl, manner, _, left⟩ := visit
    rw [visits_visit]
    exact ⟨congrArg _ ih.1, List.forall_mem_cons.mpr ⟨⟨manner, left⟩, ih.2⟩⟩

theorem When.visits {condition : Prop} {P : List (Deed σ ν) → Prop} (h : When condition P ds)
    (none : P ds → Deed.visits ds = []) : Deed.visits ds = [] := by
  by_cases held : condition
  · exact none (h.held held)
  · rw [h.failed held]
    rfl

end Deed

theorem toString_inj {m n : Nat} (h : toString m = toString n) : m = n := by
  rw [Nat.toString_eq_repr, Nat.toString_eq_repr, Nat.repr_eq_ofList_toDigits,
    Nat.repr_eq_ofList_toDigits] at h
  have digits := String.ofList_injective h
  rw [← Nat.ofDigitChars_ten_toDigits (n := m), digits, Nat.ofDigitChars_ten_toDigits]

/-- Nodes made at run time are told apart by their numbers. -/
theorem Numbered.distinct {parent : UniqueId} (h : Numbered parent low high ds) :
    (∀ p ∈ visits ds, p.1.announced ∧ p.1.leaving = .ended ∧
      ∃ kind number, low < number ∧ p.1.id = parent.append kind ("#" ++ toString number)) ∧
    ((visits ds).map (·.1.id)).Nodup := by
  induction h with
  | nil => exact ⟨List.forall_mem_nil _, .nil⟩
  | act _ ih => exact ih
  | @visit low number segment high rest v inside above announced left id _ ih =>
    obtain ⟨made, distinct⟩ := ih
    rw [visits_visit]
    refine ⟨List.forall_mem_cons.mpr ⟨⟨announced, left, segment, number, above, id⟩, ?_⟩,
      List.nodup_cons.mpr ⟨?_, distinct⟩⟩
    · intro p member
      obtain ⟨announced, left, kind, later, behind, id⟩ := made p member
      exact ⟨announced, left, kind, later, by omega, id⟩
    · intro shared
      obtain ⟨p, member, same⟩ := List.mem_map.mp shared
      obtain ⟨_, _, kind, later, behind, id'⟩ := made p member
      dsimp only at same
      rw [id, id'] at same
      have number_eq : later = number := by
        simp only [UniqueId.append, UniqueId.mk.injEq, List.append_cancel_left_eq, List.cons.injEq,
          Segment.mk.injEq, and_true, String.append_right_inj] at same
        exact toString_inj same.2
      omega

theorem Numbered.brood (h : Numbered v.id low high ds) : Brood v (visits ds) := by
  refine .made (fun p member => ?_) h.distinct.2
  obtain ⟨announced, left, kind, _, _, id⟩ := h.distinct.1 p member
  exact ⟨announced, left, kind, _, id⟩

/-- Without parallel execution no node runs beside others. -/
theorem Place.runsBeside_eq_false (sequential : settings.parallel = false) (t : TestTree σ ν) :
    place.runsBeside settings t = false := by
  simp [Place.runsBeside, Execution.isConcurrent, Execution.modeOf, sequential]

theorem ChildrenExecuted.visits (h : ChildrenExecuted settings place ds)
    (sequential : settings.parallel = false) :
    (Deed.visits ds).map (·.1.tree) = place.below ∧ ∀ p ∈ Deed.visits ds, p.1.leaving = .ended := by
  obtain ⟨sameThread, concurrent, rfl, visits, beside⟩ := h
  have all : place.below.filter (!place.runsBeside settings ·) = place.below := by
    simp [Place.runsBeside_eq_false sequential]
  have none : place.below.filter (place.runsBeside settings ·) = [] := by
    simp [Place.runsBeside_eq_false sequential]
  rw [all] at visits
  rw [none, List.forall₂_nil_left_iff] at beside
  rw [beside, List.append_nil]
  obtain ⟨trees, each⟩ := visits_each visits
  exact ⟨trees, fun p member => (each p member).2⟩

theorem LeafOrder.visits {r : Registry (Extension σ ν)} {body : List (Deed σ ν) → Prop} {p : LeafParts σ ν}
    (h : LeafOrder r body p) : Deed.visits p.deeds = Deed.visits p.body := by
  simp [LeafParts.deeds, h.instantiation.visits, h.beforeEach.visits UntilFailure.visits,
    h.beforeExecution.visits UntilFailure.visits, h.afterExecution.visits InTurn.visits,
    h.afterEach.visits InTurn.visits, h.farewell.visits]

theorem ClassOrder.visits {c : TestClass σ ν} {p : ClassParts σ ν} (h : ClassOrder settings place c p) :
    Deed.visits p.deeds = Deed.visits p.children := by
  simp [ClassParts.deeds, h.setUp.visits, h.beforeAll.visits UntilFailure.visits,
    h.beforeHooks.visits UntilFailure.visits, h.afterHooks.visits InTurn.visits,
    h.afterAll.visits InTurn.visits, h.farewell.visits]

/-- What is visited directly inside a node: nodes made at run time, or the trees declared below it, which
are all executed or all passed over. -/
inductive Children (settings : Settings) (place : Place σ ν) (ds : List (Deed σ ν)) : Prop where
  | made : Numbered place.descriptor.id 0 high part → Deed.visits ds = Deed.visits part →
      Children settings place ds
  | executed : ChildrenExecuted settings place part → Deed.visits ds = Deed.visits part →
      Children settings place ds
  | passedOver : PassedOver reason place.below part → Deed.visits ds = Deed.visits part →
      Children settings place ds

theorem Children.congr (h : Children settings place es) (same : Deed.visits ds = Deed.visits es) :
    Children settings place ds := by
  cases h with
  | made numbered part => exact .made numbered (same.trans part)
  | executed children part => exact .executed children (same.trans part)
  | passedOver trees part => exact .passedOver trees (same.trans part)

theorem numbered_of_leafBody {d : Descriptor σ ν} {body : List (Deed σ ν) → Prop}
    (leafy : leafBody? path d = some body) (held : body ds) : ∃ high, Numbered d.id 0 high ds := by
  have method {m : String} (h : MethodBody m ds) : ∃ high, Numbered d.id 0 high ds := by
    obtain ⟨inst, inside, fault, rfl⟩ := h
    exact ⟨0, .act (.nil (Nat.le_refl _))⟩
  unfold leafBody? at leafy
  split at leafy
  · cases leafy
    exact method held
  · cases leafy
    obtain ⟨inst, inside, fault, expansion, high, rfl, _, numbered⟩ := held
    exact ⟨high, .act numbered⟩
  · obtain ⟨t, _, rfl⟩ := Option.map_eq_some_iff.mp leafy
    exact method held
  · contradiction
  · contradiction
  · contradiction

theorem Course.children (h : Course settings path place ds) : Children settings place ds := by
  cases h with
  | @leaf body p leafy order =>
    by_cases reached : raised (p.instantiation ++ p.beforeEach ++ p.beforeExecution) = []
    · obtain ⟨high, numbered⟩ := numbered_of_leafBody leafy (order.body.held reached)
      exact .made numbered order.visits
    · have none : Numbered place.descriptor.id 0 0 ([] : List (Deed σ ν)) := .nil (Nat.le_refl 0)
      refine .made none ?_
      rw [order.visits, order.body.failed reached]
  | @testClass c p _ order =>
    match outcome : raised (p.setUp ++ p.beforeAll ++ p.beforeHooks) with
    | [] => exact .executed (order.children outcome) order.visits
    | [e] => exact .passedOver (order.childrenSkipped e outcome) order.visits
    | _ :: _ :: _ =>
      have several := order.oneFailure
      rw [outcome] at several
      simp at several
  | template _ course =>
    obtain ⟨high, numbered⟩ := course
    exact .made numbered rfl
  | container _ _ executed => exact .executed executed rfl

theorem Finish.visits (h : Finish place ds) : Deed.visits ds = [] := by
  obtain ⟨inside, fault, told, r, rfl, turns⟩ := h
  simp [turns.visits]

theorem Skip.children {reason : String} (h : Skip place reason ds) : Children settings place ds := by
  obtain ⟨told, skips, inside, fault, rfl, turns, passed⟩ := h
  exact .passedOver passed (by simp [turns.visits])

theorem Conduct.children (h : Conduct env path v inside) : Children env.settings v.place inside := by
  cases h with
  | refused _ _ skips finish => exact .passedOver skips (by simp [finish.visits])
  | disabled _ skip => exact skip.children.congr (by simp [admission])
  | unclear _ skips finish => exact .passedOver skips (by simp [admission, finish.visits])
  | entered _ course finish => exact course.children.congr (by simp [admission, finish.visits])
  | passedOver _ skip => exact skip.children
  | made _ numbered finish => exact .made numbered (by simp [finish.visits])

theorem Conduct.brood (h : Conduct env path v inside) (sequential : env.settings.parallel = false) :
    Brood v (visits inside) := by
  cases h.children with
  | made numbered same => exact same ▸ numbered.brood
  | executed children same =>
    obtain ⟨declared, ended⟩ := children.visits sequential
    exact same ▸ .declared declared ended
  | passedOver trees same =>
    obtain ⟨declared, each⟩ := visits_each trees
    exact same ▸ .declared declared fun p member => (each p member).2

namespace Deed

mutual
def everyVisit : Deed σ ν → List (Visit σ ν)
  | .act _ | .report _ => []
  | .visit v inside => v :: everyVisitIn inside
def everyVisitIn : List (Deed σ ν) → List (Visit σ ν)
  | [] => []
  | d :: ds => everyVisit d ++ everyVisitIn ds
end

theorem everyVisitIn_eq (ds : List (Deed σ ν)) :
    everyVisitIn ds = (visits ds).flatMap fun (v, inside) => everyVisit (.visit v inside) := by
  induction ds with
  | nil => rfl
  | cons d ds ih => cases d <;> simp [everyVisitIn, everyVisit, ih]

theorem mem_visits {p : Visit σ ν × List (Deed σ ν)} (h : p ∈ visits ds) : .visit p.1 p.2 ∈ ds := by
  obtain ⟨d, member, found⟩ := List.mem_filterMap.mp h
  cases d with
  | act | report => contradiction
  | visit v inside =>
    cases found
    exact member

theorem visit_mem_visits {v : Visit σ ν} {inside : List (Deed σ ν)} (h : .visit v inside ∈ ds) :
    (v, inside) ∈ visits ds := List.mem_filterMap.mpr ⟨_, h, rfl⟩

end Deed

/-- A log opens a block for each of the visits, with announcements where the nodes are made at run time,
and no two are to one node. -/
structure Tells (all : List (Visit σ ν)) (log : List Event) : Prop where
  opened : toldOf opens log = all.map (·.id)
  registered : toldOf isRegistered log = (all.filter (·.announced)).map (·.id)
  distinct : (all.map (·.id)).Nodup

theorem Tells.append {xs ys : List (Visit σ ν)} {log more : List Event} (first : Tells xs log)
    (second : Tells ys more) (apart : ∀ x ∈ xs, ∀ y ∈ ys, x.id ≠ y.id) : Tells (xs ++ ys) (log ++ more) := by
  refine ⟨by simp [first.opened, second.opened], by simp [first.registered, second.registered], ?_⟩
  rw [List.map_append, List.nodup_append]
  refine ⟨first.distinct, second.distinct, ?_⟩
  simpa using apart

theorem Tells.count_registered {all : List (Visit σ ν)} {log : List Event} (h : Tells all log) :
    ∀ v ∈ all, (toldOf isRegistered log).count v.id = if v.announced then 1 else 0 := by
  intro v member
  rw [h.registered]
  split
  · rename_i announced
    have distinct : ((all.filter (·.announced)).map (·.id)).Nodup :=
      h.distinct.sublist (List.filter_sublist.map _)
    exact List.count_eq_one_of_mem distinct (List.mem_map_of_mem (List.mem_filter.mpr ⟨member, announced⟩))
  · rename_i plain
    refine List.count_eq_zero.mpr fun shared => plain ?_
    obtain ⟨w, among, same⟩ := List.mem_map.mp shared
    obtain ⟨other, announced⟩ := List.mem_filter.mp among
    exact List.inj_on_of_nodup_map h.distinct other member same ▸ announced

/-- A visit with all inside, as listeners are told of it. -/
structure Sound (v : Visit σ ν) (inside : List (Deed σ ν)) : Prop where
  blocks : ∀ above, v.id.Below above → Blocks above (log default (.visit v inside))
  tells : Tells (everyVisit (.visit v inside)) (log default (.visit v inside))
  within : ∀ w ∈ everyVisit (.visit v inside), w.id.Within v.id

theorem tells_sideBySide {id : UniqueId} {children : List (Visit σ ν × List (Deed σ ν))}
    (sound : ∀ p ∈ children, Sound p.1 p.2)
    (placed : ∀ p ∈ children, ∃ kind value, p.1.id = id.append kind value)
    (distinct : (children.map (·.1.id)).Nodup) :
    Tells (children.flatMap fun (v, inside) => everyVisit (.visit v inside))
      (children.flatMap fun (v, inside) => log default (.visit v inside)) := by
  induction children with
  | nil => exact ⟨rfl, rfl, .nil⟩
  | cons p rest ih =>
    obtain ⟨here, later⟩ := List.nodup_cons.mp distinct
    have first := sound p (by simp)
    have second := ih (fun q member => sound q (by simp [member]))
      (fun q member => placed q (by simp [member])) later
    refine first.tells.append second fun x among y behind same => here ?_
    obtain ⟨q, member, below⟩ := List.mem_flatMap.mp behind
    obtain ⟨kind, value, root⟩ := placed p (by simp)
    obtain ⟨kind', value', root'⟩ := placed q (by simp [member])
    have left := first.within x among
    have right := (sound q (by simp [member])).within y below
    rw [root] at left
    rw [root', ← same] at right
    rw [List.mem_map]
    exact ⟨q, member, by dsimp only; rw [root, root', UniqueId.apart left right]⟩

theorem blocks_sideBySide {above : UniqueId} {children : List (Visit σ ν × List (Deed σ ν))}
    (sound : ∀ p ∈ children, Sound p.1 p.2) (lower : ∀ p ∈ children, p.1.id.Below above) :
    Blocks above (children.flatMap fun (v, inside) => log default (.visit v inside)) := by
  induction children with
  | nil => exact .nil
  | cons p rest ih =>
    have first := (sound p (by simp)).blocks above (lower p (by simp))
    have second := ih (fun q member => sound q (by simp [member])) fun q member => lower q (by simp [member])
    exact first.append second

theorem Conduct.sound (h : Conduct env path v inside) (sound : ∀ p ∈ visits inside, Sound p.1 p.2)
    (placed : ∀ p ∈ visits inside, ∃ kind value, p.1.id = v.id.append kind value)
    (distinct : ((visits inside).map (·.1.id)).Nodup) : Sound v inside := by
  have children : ∀ p ∈ visits inside, p.1.id.Below v.id := by
    intro p member
    obtain ⟨kind, value, same⟩ := placed p member
    rw [same]
    exact UniqueId.below_append ..
  have below : ∀ w ∈ everyVisitIn inside, w.id.Below v.id := by
    intro w member
    rw [everyVisitIn_eq] at member
    obtain ⟨p, among, inner⟩ := List.mem_flatMap.mp member
    exact ((sound p among).within w inner).below (children p among)
  have within : ∀ w ∈ everyVisit (.visit v inside), w.id.Within v.id := by
    intro w member
    rcases List.mem_cons.mp member with rfl | member
    · exact .inl rfl
    · exact .inr (below w member)
  have tells : Tells (everyVisitIn inside) (logInside inside) := by
    rw [everyVisitIn_eq]
    exact tells_sideBySide sound placed distinct
  have unused : v.id ∉ (everyVisitIn inside).map (·.id) := by
    intro shared
    obtain ⟨w, member, same⟩ := List.mem_map.mp shared
    exact (below w member).ne same
  have announced : Announces v.descriptor.node (loggedIn v.announcement) := by
    unfold Visit.announcement
    split
    · exact .inr rfl
    · exact .inl rfl
  have registered : toldOf isRegistered (loggedIn v.announcement) = if v.announced then [v.id] else [] := by
    unfold Visit.announcement
    split <;> rfl
  have told {rest : List Event} (opened : toldOf opens rest = v.id :: toldOf opens (logInside inside))
      (unannounced : toldOf isRegistered rest = toldOf isRegistered (logInside inside)) :
      Tells (everyVisit (.visit v inside)) (loggedIn v.announcement ++ rest) := by
    refine ⟨?_, ?_, List.nodup_cons.mpr ⟨unused, tells.distinct⟩⟩
    · rw [toldOf_append, announced.toldOf rfl, opened, tells.opened]
      rfl
    · rw [toldOf_append, registered, unannounced, tells.registered, everyVisit, List.filter_cons]
      split <;> simp
  rcases h.logged with ⟨r, logged⟩ | ⟨reason, logged⟩
  · refine ⟨fun above lower => ?_, ?_, within⟩
    · rw [log_visit, logged]
      exact .executed lower announced (blocks_sideBySide sound children) .nil
    · rw [log_visit, logged]
      exact told (by simp [Event.of, opens, isStarted, isSkipped]; rfl) (by simp [Event.of, isRegistered])
  · refine ⟨fun above lower => ?_, ?_, within⟩
    · rw [log_visit, logged]
      exact .skipped lower announced
        (blocks_sideBySide sound fun p member => (children p member).trans lower)
    · rw [log_visit, logged]
      exact told (by simp [Event.of, opens, isSkipped]; rfl) (by simp [Event.of, isRegistered])

/-- Where trees have grown, every visit that comes to its end is sound. -/
theorem Deed.Everywhere.sound (sequential : env.settings.parallel = false) {d : Deed σ ν}
    (lawful : Everywhere (Law env) path d) : ∀ v inside, d = .visit v inside → v.leaving = .ended →
    v.tree.Grown → Sound v inside := by
  induction lawful with
  | act | report =>
    intro v inside same
    simp at same
  | @visit path v inside law lawful ih =>
    intro _ _ same left grown
    obtain ⟨rfl, rfl⟩ := Deed.visit.inj same
    have conduct := law.ended left
    have dynamic : ∀ p ∈ visits inside, p.1.announced → p.1.place.below = [] := by
      intro p member announced
      cases lawful _ (mem_visits member) with
      | visit law _ => exact (law.dynamic announced).2
    obtain ⟨children, distinct⟩ := (conduct.brood sequential).grown grown dynamic
    refine conduct.sound (fun p member => ?_) (fun p member => (children p member).2.2) distinct
    obtain ⟨left, grown, _⟩ := children p member
    exact ih _ (mem_visits member) p.1 p.2 rfl left grown

/-- What listeners are told in a run, apart from report entries. -/
def Run.log (r : Run σ ν) : List Event := loggedIn r.trace

section
variable {c : Configuration} {extensions : List (Declared σ ν)} {tree : TestTree σ ν} {user : σ}
  {run : Run σ ν} {b : Blueprint σ ν}

theorem grown_of_valid (built : tree = b.build ∨ ∃ parent, tree = b.buildUnder parent)
    (valid : tree.validate = .ok ()) : tree.Grown := by
  have distinct := TestTree.validate_nodup valid
  rcases built with rfl | ⟨parent, rfl⟩
  · exact b.buildAt_grown _ _ distinct
  · exact b.buildAt_grown _ _ distinct

theorem rooted_of_built (built : tree = b.build ∨ ∃ parent, tree = b.buildUnder parent) :
    tree.descriptor.id.Below ⟨[]⟩ := by
  rcases built with rfl | ⟨⟨segments⟩, rfl⟩
  · rw [Blueprint.build, b.descriptor_buildAt]
    exact ⟨_, [], rfl⟩
  · rw [Blueprint.buildUnder, b.descriptor_buildAt]
    cases segments with
    | nil => exact ⟨_, [], rfl⟩
    | cons s rest => exact ⟨s, _, rfl⟩

/-- In a run on one thread that comes to its end, what listeners are told is well nested. All visits are
to different nodes, and those made at run time are announced, each of them once. Trees below a node that
expands at run time are not visited unless it is skipped. -/
theorem log_wellNested (executed : execute c extensions tree user = .ok run)
    (built : tree = b.build ∨ ∃ parent, tree = b.buildUnder parent)
    (sequential : (Settings.ofConfiguration c).parallel = false) (ended : run.halt = none) :
    WellNested run.log ∧ ∃ registry v inside, rootRegistry extensions = .ok registry ∧
      run.ToldBy tree v inside ∧ Deed.Everywhere (Law (environment c registry)) [] (.visit v inside) ∧
      ((everyVisit (.visit v inside)).map (·.id)).Nodup ∧
      ∀ w ∈ everyVisit (.visit v inside), w.id ∈ toldOf opens run.log ∧
        (toldOf isRegistered run.log).count w.id = if w.announced then 1 else 0 := by
  obtain ⟨registry, v, inside, registered, told, lawful⟩ := lawful_history executed
  have root : v.tree = tree := told.root
  have grown : v.tree.Grown := root ▸ grown_of_valid built (execute_valid executed)
  have left : v.leaving = .ended := by
    rw [told.leaving, Run.leaving, ended]
  have sound := lawful.sound sequential v inside rfl left grown
  have log : run.log = Deed.log default (.visit v inside) := by
    rw [Run.log, told.trace]
    rfl
  have rooted : v.tree.descriptor.id.Below ⟨[]⟩ := root ▸ rooted_of_built built
  rw [log]
  refine ⟨(sound.blocks _ rooted).wellNested ?_, registry, v, inside, registered, told, lawful,
    sound.tells.distinct, fun w member => ⟨?_, ?_⟩⟩
  · rw [sound.tells.opened]
    exact sound.tells.distinct
  · rw [sound.tells.opened]
    exact List.mem_map_of_mem member
  · exact sound.tells.count_registered w member

theorem log_wellNested_sample : ∃ run, execute .empty [] Blueprint.sample.build () = .ok run ∧
    (Settings.ofConfiguration .empty).parallel = false ∧ run.halt = none ∧
    run.events.map (·.displayName) = Blueprint.sampleNames ∧ WellNested run.log := by
  obtain ⟨run, executed, ended, names⟩ := Blueprint.sample_executed
  have sequential : (Settings.ofConfiguration .empty).parallel = false := by decide +kernel
  exact ⟨run, executed, sequential, ended, names, (log_wellNested executed (.inl rfl) sequential ended).1⟩

end
end TestEngine

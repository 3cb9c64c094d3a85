import TestEngine.Blueprint
import TestEngine.Engine
import TestEngine.Proofs.Classes
import TestEngine.Proofs.Expanding

/-! Whole trees: by induction on a tree, executing it makes one visit to its root in which every visit
keeps the law. -/
namespace TestEngine
variable {σ ν α : Type}

open Deed Execution

theorem TestTree.induct {P : TestTree σ ν → Prop}
    (node : ∀ d cs, (∀ t ∈ cs, P t) → P (.node d cs)) (t : TestTree σ ν) : P t := by
  refine TestTree.rec (motive_1 := P) (motive_2 := fun ts => ∀ t ∈ ts, P t) node ?_ ?_ t
  · simp
  · intro t ts first rest u member
    rcases List.mem_cons.mp member with rfl | member
    · exact first
    · exact rest u member

theorem TestTree.preorderAll_eq (ts : List (TestTree σ ν)) : preorderAll ts = ts.flatMap preorder := by
  induction ts with
  | nil => rfl
  | cons t ts ih => rw [preorderAll, ih, List.flatMap_cons]

theorem TestTree.mem_preorder_below {d x : Descriptor σ ν} {t : TestTree σ ν} {cs : List (TestTree σ ν)}
    (child : t ∈ cs) (member : x ∈ t.preorder) : x ∈ (TestTree.node d cs).preorder := by
  rw [preorder, preorderAll_eq]
  exact List.mem_cons_of_mem _ (List.mem_flatMap.mpr ⟨t, child, member⟩)

section
variable {env : Environment σ ν} {place : Place σ ν} {path : List (Place σ ν)}

theorem conducts_skipAll {reason : String} {trees : List (TestTree σ ν)}
    (skips : ∀ t ∈ trees, Conducts timed env (place :: path) (skip t reason) (fun _ ds => ∃ d, ds = [d] ∧
      Visits (.passedOver reason) (· = .ended) t d) Passing) :
    Conducts timed env (place :: path) (skipAll trees reason) (fun _ ds => PassedOver reason trees ds) Passing := by
  induction trees with
  | nil => exact .pure .nil
  | cons t ts ih =>
    refine (skips t (by simp)).bind ?_ fun _ _ passing => passing
    rintro _ _ ⟨d, rfl, visits⟩
    refine (ih fun t member => skips t (by simp [member])).mono ?_ ?_
    · exact fun _ ds skips => .cons visits skips
    · exact fun _ ds passing => ⟨passing.1, (PassedOver.onlyPasses (.cons visits .nil)).append passing.2⟩

theorem conducts_skip (t : TestTree σ ν) : ∀ (path : List (Place σ ν)) (reason : String),
    (∀ p ∈ path.head?, t ∈ p.below) → Conducts timed env path (skip t reason) (fun _ ds => ∃ d, ds = [d] ∧
      Visits (.passedOver reason) (· = .ended) t d) Passing := by
  induction t using TestTree.induct with
  | node d cs ih =>
    intro path reason declared
    have visited : ∃ v : Visit σ ν, v.descriptor = d ∧ v.place.below = cs ∧ v.manner = .passedOver reason ∧
        v.announced = false ∧ Makes timed env path v (fun _ => True) (visitSkipped d reason (skipAll cs reason)) := by
      refine makes_visitSkipped declared ?_
      rintro place _ rfl
      exact conducts_skipAll fun t member => ih t member (place :: _) reason (by simpa using member)
    obtain ⟨v, descriptor, below, manner, announced, makes⟩ := visited
    apply (makes.conducts announced).mono
    · rintro _ _ ⟨inside, rfl, _⟩
      exact ⟨_, rfl, _, inside, rfl, by rw [← descriptor, ← below], manner, announced, rfl⟩
    · rintro h _ ⟨inside, rfl, law, _⟩
      refine ⟨?_, fun u us member => ⟨reason, ?_⟩⟩
      · rintro payload rfl
        have executed : v.manner = .executed := (law.torn payload rfl).1
        rw [manner] at executed
        contradiction
      · cases List.mem_singleton.mp member
        exact manner

theorem childrenOf_eq (cs : List (TestTree σ ν)) :
    childrenOf cs = cs.map fun t => (t.descriptor, Execution.execute t) := by
  induction cs with
  | nil => rfl
  | cons t ts ih => rw [childrenOf, ih]; rfl

def Executes (timed : Prop) (env : Environment σ ν) (path : List (Place σ ν)) (t : TestTree σ ν) : Prop :=
  Conducts timed env path (Execution.execute t) (fun _ ds => ∃ d, ds = [d] ∧ Visits .executed (· = .ended) t d)
    (fun h ds => ∃ d, ds = [d] ∧ Visits .executed (· = .of h) t d)

theorem conducts_sameThread (place : Place σ ν) (path : List (Place σ ν)) {trees : List (TestTree σ ν)}
    (declared : ∀ t ∈ trees, t ∈ place.below)
    (executes : ∀ t ∈ trees, Executes timed env (place :: path) t) :
    Conducts timed env (place :: path) (executeEach (trees.map fun t => (t.descriptor, Execution.execute t)))
      (fun _ ds => List.Forall₂ (Visits .executed (· = .ended)) trees ds)
      (fun h ds => ∀ payload, h = .panicked payload → ChildrenTorn payload place.below ds) := by
  induction trees with
  | nil => exact .pure .nil
  | cons t ts ih =>
    apply (executes t (by simp)).bind
    · rintro _ _ ⟨d, rfl, visits⟩
      refine (ih (fun t member => declared t (by simp [member])) fun t member =>
        executes t (by simp [member])).mono (fun _ _ rest => .cons visits rest) ?_
      intro h ds torn payload panicked
      obtain ⟨before, u, last, rfl, ended, member, left⟩ := torn payload panicked
      refine ⟨d :: before, u, last, rfl, ?_, member, left⟩
      intro e among
      rcases List.mem_cons.mp among with rfl | among
      · exact ⟨t, declared t (by simp), visits⟩
      · exact ended e among
    · rintro _ _ ⟨d, rfl, visits⟩ payload rfl
      exact ⟨[], t, d, rfl, by simp, declared t (by simp), visits⟩

theorem conducts_concurrent {trees : List (TestTree σ ν)}
    (executes : ∀ t ∈ trees, Executes timed env (place :: path) t) :
    Conducts timed env (place :: path)
      (executeEach (trees.map fun t => (t.descriptor, Engine.contain (Execution.execute t))))
      (fun _ ds => List.Forall₂
        (Visits .executed fun l => l = .ended ∨ ∃ payload, l = .torn payload) trees ds) Calm := by
  induction trees with
  | nil => exact .pure .nil
  | cons t ts ih =>
    refine (executes t (by simp)).contain.bind ?_ fun _ _ ⟨calm, _⟩ => calm
    rintro _ ds contained
    have visited : ∃ d, ds = [d] ∧
        Visits .executed (fun l => l = .ended ∨ ∃ payload, l = .torn payload) t d := by
      rcases contained with ⟨d, rfl, v, inside, rfl, root, manner, announced, left⟩ |
        ⟨payload, d, rfl, v, inside, rfl, root, manner, announced, left⟩
      · exact ⟨_, rfl, v, inside, rfl, root, manner, announced, .inl left⟩
      · exact ⟨_, rfl, v, inside, rfl, root, manner, announced, .inr ⟨payload, left⟩⟩
    obtain ⟨d, rfl, visits⟩ := visited
    exact (ih fun t member => executes t (by simp [member])).calm_mono (fun _ _ rest => .cons visits rest)

theorem conducts_executeChildren (executes : ∀ t ∈ place.below, Executes timed env (place :: path) t) :
    ExecutesBelow timed env path place (executeChildren (childrenOf place.below)) := by
  refine (Goes.top? (E := Calm)).bind ?_ fun _ _ calm => calm.no_panic
  rintro top _ ⟨rfl, same⟩
  cases top with
  | none => contradiction
  | some f =>
    have site : f.site = place.toSite := Option.some.inj same
    have beside (t : TestTree σ ν) :
        isConcurrent env.settings f t.descriptor = place.runsBeside env.settings t := by
      have descriptor : f.descriptor = place.descriptor := congrArg Site.descriptor site
      have lifecycle : f.lifecycle = place.lifecycle := congrArg Site.lifecycle site
      have held : f.held = place.held := congrArg Site.held site
      unfold Place.runsBeside isConcurrent
      rw [descriptor, lifecycle, held]
      rfl
    refine (Goes.settings (E := Calm)).bind ?_ fun _ _ calm => calm.no_panic
    rintro _ _ ⟨rfl, rfl⟩
    dsimp only
    rw [childrenOf_eq, List.partition_eq_filter_filter, List.filter_map, List.filter_map]
    have beside : ((fun x : Child σ ν => isConcurrent env.settings f x.1) ∘
        fun t : TestTree σ ν => (t.descriptor, Execution.execute t)) = place.runsBeside env.settings :=
      funext beside
    have apart : ((Bool.not ∘ fun x : Child σ ν => isConcurrent env.settings f x.1) ∘
        fun t : TestTree σ ν => (t.descriptor, Execution.execute t)) =
        (!place.runsBeside env.settings ·) := by
      rw [Function.comp_assoc, beside]
      rfl
    rw [beside, apart]
    have among (t : TestTree σ ν) {keep : TestTree σ ν → Bool} (member : t ∈ place.below.filter keep) :
        t ∈ place.below := List.mem_of_mem_filter member
    refine (conducts_sameThread place path (fun t => among t)
      fun t member => executes t (among t member)).bind ?_ fun _ _ torn => torn
    intro _ sameThread visits
    rw [List.map_map]
    refine (conducts_concurrent fun t member => executes t (among t member)).mono ?_
      fun _ _ calm => calm.no_panic
    exact fun _ concurrent beside => ⟨sameThread, concurrent, rfl, visits, beside⟩

theorem goes_parentTemplate? {E : Halt → List (Deed σ ν) → Prop} :
    Conducts timed env (place :: path) parentTemplate?
      (fun found ds => ds = [] ∧
        found = (Place.template? path).map fun t => (t, path.head?.bind (·.descriptor.timeout))) E := by
  refine (Goes.frames (E := E)).bind ?_ fun _ _ e => e
  rintro fs _ ⟨rfl, sites⟩
  cases fs with
  | nil => contradiction
  | cons f above =>
    have sites : above.map Frame.site = path.map (·.toSite) := (List.cons.inj sites).2
    cases above with
    | nil =>
      cases path with
      | nil => exact .pure ⟨rfl, rfl⟩
      | cons => contradiction
    | cons g above =>
      cases path with
      | nil => contradiction
      | cons p path =>
        have descriptor : g.descriptor = p.descriptor := congrArg Site.descriptor (List.cons.inj sites).1
        refine .pure ⟨rfl, ?_⟩
        rw [descriptor]
        unfold Place.template?
        dsimp only
        cases p.descriptor.role <;> rfl

theorem takesCourse_container (executes : ∀ t ∈ place.below, Executes timed env (place :: path) t)
    (noLeaf : leafBody? path place.descriptor = none) (noTest : testOf? path place.descriptor = none)
    (role : place.descriptor.role = .engine ∨ place.descriptor.role = .dynamic) :
    TakesCourse timed env path place (do
      executeChildren (childrenOf place.below)
      return .successful) := by
  refine (conducts_executeChildren executes).bind ?_ fun h ds torn payload panicked =>
    .container noLeaf role (torn payload panicked)
  intro _ ds executed
  refine .pure ?_
  rw [List.append_nil, raised_childrenExecuted executed]
  refine ⟨.container noLeaf role executed, .none ?_ ?_, by simp [RunsTest, noTest], .empty, rfl, .nil⟩
  all_goals rcases role with role | role <;> simp [role]

theorem takesCourse_test {m : Method σ ν Unit} {limit : Option Duration}
    (leafy : leafBody? path place.descriptor = some (MethodBody m.name))
    (test : testOf? path place.descriptor = some (m, limit)) (permitted : env.Permits timed limit) :
    TakesCourse timed env path place (leaf (invokeTest m limit)) := by
  refine (conducts_leaf (conducts_invokeTest permitted m)).mono ?_ fun _ _ calm => calm.no_panic
  rintro r _ ⟨⟨p, rfl, order⟩, gathers⟩
  refine ⟨.leaf leafy (order.mono TestBody.method), .none (fun t role => ?_) (fun f role => ?_),
    fun m limit found => ?_, gathers⟩
  · simp [testOf?, role] at test
  · simp [testOf?, role] at test
  · cases test.symm.trans found
    exact ⟨p, rfl, order⟩

theorem takesCourse_factory {f : Factory σ ν} (role : place.descriptor.role = .factory f) :
    TakesCourse timed env path place (leaf (runFactory f place.descriptor)) := by
  refine (conducts_leaf (conducts_runFactory f)).mono ?_ fun _ _ calm => calm.no_panic
  rintro r _ ⟨⟨p, rfl, order⟩, gathers⟩
  exact ⟨.leaf (by simp only [leafBody?, role]) (order.mono FactoryExpansion.body),
    .factory role order, by simp [RunsTest, testOf?, role], gathers⟩

theorem takesCourse_testClass {c : TestClass σ ν} (role : place.descriptor.role = .testClass c)
    (executes : ∀ t ∈ place.below, Executes timed env (place :: path) t)
    (skips : SkipsBelow timed env path place (skipAll place.below)) :
    TakesCourse timed env path place
      (executeClass c place.lifecycle (executeChildren (childrenOf place.below)) (skipAll place.below)) := by
  apply (conducts_executeClass (conducts_executeChildren executes) skips).mono
  · rintro r _ ⟨⟨p, rfl, order⟩, gathers⟩
    exact ⟨.testClass role order, .none (by simp [role]) (by simp [role]), by simp [RunsTest, testOf?, role], gathers⟩
  · rintro h ds torn payload panicked
    obtain ⟨p, rfl, classTorn⟩ := torn payload panicked
    exact .testClass role classTorn

theorem takesCourse_template {t : Template σ ν} (role : place.descriptor.role = .template t)
    (permitted : env.Permits timed place.descriptor.timeout) :
    TakesCourse timed env path place (executeTemplate t place.descriptor) := by
  refine (conducts_executeTemplate role permitted).mono ?_ fun _ _ torn payload panicked =>
    .template role (torn payload panicked)
  rintro r ds ⟨expansion, gathers⟩
  exact ⟨.template role expansion.course, .template role expansion, by simp [RunsTest, testOf?, role], gathers⟩

theorem takesCourse_executeRole (executes : ∀ t ∈ place.below, Executes timed env (place :: path) t)
    (skips : SkipsBelow timed env path place (skipAll place.below))
    (permitted : ∀ p ∈ (place :: path).take 2, env.Permits timed p.descriptor.timeout) :
    TakesCourse timed env path place
      (executeRole place.descriptor (childrenOf place.below) (skipAll place.below)) := by
  have own := permitted place (by simp)
  unfold executeRole
  split
  · rename_i role
    exact takesCourse_container executes (by simp only [leafBody?, role]) (by simp only [testOf?, role]) (.inl role)
  · rename_i c role
    refine (Goes.top? (E := Calm)).bind ?_ fun _ _ calm => calm.no_panic
    rintro top _ ⟨rfl, same⟩
    have lifecycle : (top.map (·.lifecycle)).getD .perMethod = place.lifecycle := by
      have lifecycles := congrArg (Option.map Site.lifecycle) same
      simp only [Option.map_map] at lifecycles
      exact congrArg (Option.getD · Lifecycle.perMethod) lifecycles
    rw [lifecycle]
    exact takesCourse_testClass role executes skips
  · rename_i m role
    exact takesCourse_test (by simp only [leafBody?, role]) (by simp only [testOf?, role]) own
  · rename_i t role
    exact takesCourse_template role own
  · rename_i f role
    exact takesCourse_factory role
  · rename_i role
    refine (goes_parentTemplate? (E := Calm)).bind ?_ fun _ _ calm => calm.no_panic
    rintro _ _ ⟨rfl, rfl⟩
    cases template : Place.template? path with
    | none =>
      exact takesCourse_container executes (by simp only [leafBody?, role, template, Option.map_none])
        (by simp only [testOf?, role, template, Option.map_none]) (.inr role)
    | some t =>
      refine takesCourse_test (by simp only [leafBody?, role, template, Option.map_some])
        (by simp only [testOf?, role, template, Option.map_some]) ?_
      cases path with
      | nil => contradiction
      | cons p path => exact permitted p (by simp)

/-- Executing a tree makes one visit to its root, however that is left. -/
theorem executes_tree (env : Environment σ ν) (t : TestTree σ ν) :
    ∀ path : List (Place σ ν), (∀ p ∈ path.head?, t ∈ p.below ∧ env.Permits timed p.descriptor.timeout) →
    (∀ d ∈ t.preorder, env.Permits timed d.timeout) → Executes timed env path t := by
  induction t using TestTree.induct with
  | node d cs ih =>
    intro path above permitted
    have declared : ∀ p ∈ path.head?, TestTree.node d cs ∈ p.below := fun p member => (above p member).1
    have own : env.Permits timed d.timeout := permitted d (by simp [TestTree.preorder])
    have visited : ∃ v : Visit σ ν, v.descriptor = d ∧ v.place.below = cs ∧ v.manner = .executed ∧
        v.announced = false ∧ Makes timed env path v (fun _ => True) (Execution.execute (.node d cs)) := by
      refine makes_visit (fun _ => declared) (by simp) (by simp) rfl ?_ ?_
      · rintro place _ rfl reason
        exact conducts_skipAll fun t member => conducts_skip t _ reason (by simpa using member)
      · rintro place rfl rfl
        have executes (t : TestTree σ ν) (member : t ∈ place.below) : Executes timed env (place :: path) t :=
          ih t member _ (by simpa using ⟨member, own⟩) fun x under =>
            permitted x (TestTree.mem_preorder_below member under)
        refine takesCourse_executeRole executes
          (fun reason => conducts_skipAll fun t member => conducts_skip t _ reason (by simpa using member)) ?_
        cases path with
        | nil => simpa using own
        | cons p path => simpa using ⟨own, (above p (by simp)).2⟩
    obtain ⟨v, descriptor, below, manner, announced, makes⟩ := visited
    apply (makes.conducts announced).mono
    · rintro _ _ ⟨inside, rfl, _⟩
      exact ⟨_, rfl, _, inside, rfl, by rw [← descriptor, ← below], manner, announced, rfl⟩
    · rintro h _ ⟨inside, rfl, _⟩
      exact ⟨_, rfl, _, inside, rfl, by rw [← descriptor, ← below], manner, announced, rfl⟩

end

namespace Run

def leaving (r : Run σ ν) : Leaving :=
  match r.halt with
  | none => .ended
  | some h => .of h

/-- The run is the visit to the root of the tree, with all that happens inside. -/
structure ToldBy (run : Run σ ν) (tree : TestTree σ ν) (v : Visit σ ν) (inside : List (Deed σ ν)) : Prop where
  trace : run.trace = (Deed.visit v inside).entries default
  root : .node v.descriptor v.place.below = tree
  manner : v.manner = .executed
  announced : v.announced = false
  leaving : v.leaving = run.leaving

end Run

section
variable {c : Configuration} {extensions : List (Declared σ ν)} {tree : TestTree σ ν} {user : σ}
  {run : Run σ ν}

theorem execute_valid (executed : execute c extensions tree user = .ok run) : tree.validate = .ok () := by
  unfold execute at executed
  split at executed
  · contradiction
  · assumption

theorem execute_ok (executed : execute c extensions tree user = .ok run) :
    ∃ registry, rootRegistry extensions = .ok registry ∧
      run = { trace := ((Execution.execute tree).goes (environment c registry) { user }).2.trace.toList
              user := ((Execution.execute tree).goes (environment c registry) { user }).2.user
              halt := match ((Execution.execute tree).goes (environment c registry) { user }).1 with
                | .ok () => none
                | .error h => some h } := by
  unfold execute at executed
  cases validated : tree.validate with
  | error e => simp [validated] at executed
  | ok =>
    cases registered : rootRegistry extensions with
    | error e => simp [validated, registered] at executed
    | ok registry =>
      simp only [validated, registered] at executed
      exact ⟨registry, rfl, (Except.ok.inj executed).symm⟩

/-- Every run has a history in which every visit keeps the law, and makes nodes as it says. In one in which no
invocation can time out, none does. -/
theorem permitted_history (timed : Prop) (executed : execute c extensions tree user = .ok run)
    (permitted : ∀ d ∈ tree.preorder, timed ∨ d.timeout = none ∧ (Settings.ofConfiguration c).defaultTimeout = none) :
    ∃ registry v inside, rootRegistry extensions = .ok registry ∧ run.ToldBy tree v inside ∧
      Deed.Everywhere (FullLaw timed (environment c registry)) [] (.visit v inside) := by
  obtain ⟨registry, registered, ran⟩ := execute_ok executed
  obtain ⟨told, adds, ends⟩ := executes_tree (environment c registry) tree [] (by simp) permitted
    ({ user } : World σ ν) rfl (.inr rfl)
  have visited (leaving : Leaving) (left : leaving = run.leaving)
      (h : ∃ d, told = [d] ∧ Visits .executed (· = leaving) tree d) :
      ∃ registry v inside, rootRegistry extensions = .ok registry ∧ run.ToldBy tree v inside ∧
        Deed.Everywhere (FullLaw timed (environment c registry)) [] (.visit v inside) := by
    obtain ⟨_, rfl, v, inside, rfl, root, manner, announced, rfl⟩ := h
    have trace : run.trace = (Deed.visit v inside).entries default := by
      rw [ran, adds.trace]
      simp [Telling.course, Deed.entriesAll, nodeOf]
    exact ⟨registry, v, inside, registered, ⟨trace, root, manner, announced, left⟩,
      (adds.lawful _ (List.mem_singleton_self _)).lawful⟩
  cases outcome : ((Execution.execute tree).goes (environment c registry) { user }).1 with
  | ok =>
    rw [outcome] at ends ran
    exact visited .ended (by rw [ran]; rfl) ends
  | error h =>
    rw [outcome] at ends ran
    exact visited (.of h) (by rw [ran]; rfl) ends

theorem fully_lawful_history (executed : execute c extensions tree user = .ok run) :
    ∃ registry v inside, rootRegistry extensions = .ok registry ∧ run.ToldBy tree v inside ∧
      Deed.Everywhere (FullLaw True (environment c registry)) [] (.visit v inside) :=
  permitted_history True executed fun _ _ => .inl trivial

theorem lawful_history (executed : execute c extensions tree user = .ok run) :
    ∃ registry v inside, rootRegistry extensions = .ok registry ∧ run.ToldBy tree v inside ∧
      Deed.Everywhere (Law (environment c registry)) [] (.visit v inside) := by
  obtain ⟨registry, v, inside, registered, told, lawful⟩ := fully_lawful_history executed
  exact ⟨registry, v, inside, registered, told, lawful.mono fun law => law.toLaw⟩

end

/-- The run has a history that keeps the law, and in every visit of it a condition holds. -/
def Run.Always (run : Run σ ν) (c : Configuration) (extensions : List (Declared σ ν)) (tree : TestTree σ ν)
    (P : Environment σ ν → List (Place σ ν) → Visit σ ν → List (Deed σ ν) → Prop) : Prop :=
  ∃ registry v inside, rootRegistry extensions = .ok registry ∧ run.ToldBy tree v inside ∧
    Deed.Everywhere (fun path v inside => Law (environment c registry) path v inside ∧
      P (environment c registry) path v inside) [] (.visit v inside)

theorem Run.always {c : Configuration} {extensions : List (Declared σ ν)} {tree : TestTree σ ν} {user : σ}
    {run : Run σ ν} {P : Environment σ ν → List (Place σ ν) → Visit σ ν → List (Deed σ ν) → Prop}
    (executed : execute c extensions tree user = .ok run)
    (implies : ∀ {env path v inside}, Law env path v inside →
      (∀ d ∈ inside, Deed.Everywhere (Law env) (v.place :: path) d) → P env path v inside) :
    run.Always c extensions tree P := by
  obtain ⟨registry, v, inside, registered, told, lawful⟩ := lawful_history executed
  exact ⟨registry, v, inside, registered, told, lawful.strengthen implies⟩

theorem Run.always_of_full {c : Configuration} {extensions : List (Declared σ ν)} {tree : TestTree σ ν}
    {user : σ} {run : Run σ ν} {P : Environment σ ν → List (Place σ ν) → Visit σ ν → List (Deed σ ν) → Prop}
    (executed : execute c extensions tree user = .ok run)
    (implies : ∀ {env path v inside}, FullLaw True env path v inside →
      (∀ d ∈ inside, Deed.Everywhere (FullLaw True env) (v.place :: path) d) → P env path v inside) :
    run.Always c extensions tree P := by
  obtain ⟨registry, v, inside, registered, told, lawful⟩ := fully_lawful_history executed
  exact ⟨registry, v, inside, registered, told, (lawful.strengthen implies).mono fun ⟨law, p⟩ => ⟨law.toLaw, p⟩⟩

/-- As `always_of_full`, where no invocation can time out. -/
theorem Run.always_untimed {c : Configuration} {extensions : List (Declared σ ν)} {tree : TestTree σ ν}
    {user : σ} {run : Run σ ν} {P : Environment σ ν → List (Place σ ν) → Visit σ ν → List (Deed σ ν) → Prop}
    (executed : execute c extensions tree user = .ok run)
    (untimed : (∀ d ∈ tree.preorder, d.timeout = none) ∧ (Settings.ofConfiguration c).defaultTimeout = none)
    (implies : ∀ {env path v inside}, FullLaw False env path v inside →
      (∀ d ∈ inside, Deed.Everywhere (FullLaw False env) (v.place :: path) d) → P env path v inside) :
    run.Always c extensions tree P := by
  obtain ⟨registry, v, inside, registered, told, lawful⟩ :=
    permitted_history False executed fun d member => .inr ⟨untimed.1 d member, untimed.2⟩
  exact ⟨registry, v, inside, registered, told, (lawful.strengthen implies).mono fun ⟨law, p⟩ => ⟨law.toLaw, p⟩⟩

/-- The notes of a run. -/
def Run.notes (run : Run σ ν) : List ν :=
  run.trace.filterMap fun
    | .note n => some n
    | _ => none

namespace Blueprint

private def method {α : Type} (name : String) (outcome : Except TestError α) : Method Unit String α :=
  { signature := { name }, body := fun _ => .done outcome }

/-- A method that notes that it is called. -/
def noted {α : Type} (name : String) (outcome : Except TestError α) : Method Unit String α :=
  { signature := { name }, body := fun _ => .note name (.done outcome) }

private def cases : Stream Unit String (DynamicNode Unit String) :=
  .ofList [.test "zero" (.done (.ok ())), .test "one" (.panic .other)]

/-- A class with a hook that fails after each test. Of its two tests one makes two more at run time. -/
def sample : Blueprint Unit String :=
  .node (.engine "sample") [
    .node (.ofClass {
        name := "Sums", constructor := method "Sums" (.ok ⟨"Sums", "Sums#1"⟩)
        afterEach := [method "check" (.error (.failure "open"))] }) [
      .node (.ofTest (method "adds" (.ok ()))) [],
      .node (.ofFactory { method := method "cases" (.ok cases) }) []]]

def sampleNames : List String :=
  ["sample", "Sums", "adds", "adds", "cases", "zero", "zero", "zero", "one", "one", "one", "cases",
    "Sums", "sample"]

/-- A class with one instance for all tests, and two in it with one for each. Instances of the last cannot be
made. -/
def nested : Blueprint Unit String :=
  .node (.engine "nested") [
    .node { Outline.ofClass {
        name := "Outer", lifecycle := some .perClass, constructor := method "Outer" (.ok ⟨"Outer", "Outer#1"⟩)
        beforeAll := [method "set up" (.ok ())], beforeEach := [method "open" (.ok ())] } with
        extensions := [⟨{
          name := "Cleaner", afterEach := some (.code (.done (.ok ())))
          instancePreDestroy := some fun _ => .done (.ok ()) }, .default⟩] } [
      .node (.ofClass {
          name := "Inner", constructor := method "Inner" (.ok ⟨"Inner", "Inner#1"⟩)
          beforeEach := [method "write" (.ok ()), method "read" (.ok ())]
          afterEach := [method "flush" (.ok ()), method "check" (.ok ())] }) [
        .node (.ofTest (method "first" (.ok ()))) [],
        .node (.ofTest (method "second" (.ok ()))) []],
      .node (.ofClass { name := "Broken", constructor := method "Broken" (.error (.failure "broke")) }) [
        .node (.ofTest (method "lost" (.ok ()))) []]]]

/-- A class with a test of its own, and one in it of which no instance can be made. -/
def halfMade : Blueprint Unit String :=
  .node (.engine "half made") [
    .node { Outline.ofClass {
        name := "Outer", constructor := method "Outer" (.ok ⟨"Outer", "Outer#1"⟩) } with
        extensions := [⟨{ name := "Cleaner", instancePreDestroy := some fun _ => .done (.ok ()) }, .default⟩] } [
      .node (.ofTest (method "first" (.ok ()))) [],
      .node (.ofClass { name := "Inner", constructor := method "Inner" (.error (.failure "broke")) }) [
        .node (.ofTest (method "lost" (.ok ()))) []]]]

def nestedNames : List String :=
  ["nested", "Outer", "Inner", "first", "first", "second", "second", "Inner", "Broken", "lost", "lost",
    "Broken", "Outer", "nested"]

theorem executed_of_any {p : Run Unit String → Bool} {r : Except EngineError (Run Unit String)}
    (h : r.toOption.any p) : ∃ run, r = .ok run ∧ p run := by
  cases r with
  | ok run => exact ⟨run, rfl, h⟩
  | error e => contradiction

theorem sample_executed : ∃ run, execute .empty [] sample.build () = .ok run ∧ run.halt = none ∧
    run.events.map (·.displayName) = sampleNames := by
  obtain ⟨run, executed, checked⟩ := executed_of_any (r := execute .empty [] sample.build ())
    (p := fun run => run.halt.isNone && run.events.map (·.displayName) == sampleNames) (by decide +kernel)
  rw [Bool.and_eq_true, Option.isNone_iff_eq_none, beq_iff_eq] at checked
  exact ⟨run, executed, checked⟩

theorem nested_executed : ∃ run, execute .empty [] nested.build () = .ok run ∧ run.halt = none ∧
    run.events.map (·.displayName) = nestedNames := by
  obtain ⟨run, executed, checked⟩ := executed_of_any (r := execute .empty [] nested.build ())
    (p := fun run => run.halt.isNone && run.events.map (·.displayName) == nestedNames) (by decide +kernel)
  rw [Bool.and_eq_true, Option.isNone_iff_eq_none, beq_iff_eq] at checked
  exact ⟨run, executed, checked⟩

end Blueprint

end TestEngine

import TestEngine.Proofs.Nesting
import TestEngine.Proofs.Phases
import TestEngine.Proofs.Registering

/-! Hooks of nested classes. Before each test they run from the outermost class inwards, each class's own
extensions in front of its hooks; behind it from the innermost class outwards, with the extensions behind
the hooks and turned around, but the hooks not. Hooks around all tests of a class enclose those of the
classes below it. -/
namespace TestEngine
variable {σ ν : Type} {env : Environment σ ν} {path : List (Place σ ν)} {v : Visit σ ν}
  {inside ds es : List (Deed σ ν)}

open Deed Execution

namespace Descriptor

/-- What a node adds before each test, in order: its extensions as declared, and then the hooks of its class. -/
def addsBefore (settings : Settings) (d : Descriptor σ ν) : List (Extension σ ν) :=
  (d.extensions.map (·.extension)).filter (·.has .beforeEach) ++ match d.testClass? with
    | some c => (orderHooks (hookOrder settings c) c.beforeEach).map (.beforeEachHook c.name)
    | none => []

/-- What a node adds behind each test, in order: the hooks of its class, and then its extensions, the last
declared first. -/
def addsAfter (settings : Settings) (d : Descriptor σ ν) : List (Extension σ ν) :=
  (match d.testClass? with
    | some c => (orderHooks (hookOrder settings c) c.afterEach).map (.afterEachHook c.name)
    | none => []) ++ ((d.extensions.map (·.extension)).filter (·.has .afterEach)).reverse

theorem own_beforeEach (settings : Settings) (d : Descriptor σ ν) :
    ((d.own settings).map (·.extension)).filter (·.has .beforeEach) = d.addsBefore settings := by
  unfold own addsBefore
  cases d.testClass? with
  | none => simp
  | some c =>
    have before (hooks : List (Method σ ν Unit)) : (hooks.map (Extension.beforeEachHook c.name)).filter
        (·.has .beforeEach) = hooks.map (Extension.beforeEachHook c.name) := by
      simp [Extension.has, Extension.beforeEachHook]
    have after (hooks : List (Method σ ν Unit)) : (hooks.map (Extension.afterEachHook c.name)).filter
        (·.has .beforeEach) = [] := by
      simp [Extension.has, Extension.afterEachHook]
    simp only [hookExtensions, List.map_append, List.map_map, List.filter_append]
    exact congrArg _ ((congrArg₂ _ (before _) (after _)).trans (List.append_nil _))

/-- The hooks after each test are registered from last to first, and the registry turns them back. -/
theorem own_afterEach (settings : Settings) (d : Descriptor σ ν) :
    (((d.own settings).map (·.extension)).filter (·.has .afterEach)).reverse = d.addsAfter settings := by
  unfold own addsAfter
  cases d.testClass? with
  | none => simp
  | some c =>
    have before (hooks : List (Method σ ν Unit)) : (hooks.map (Extension.beforeEachHook c.name)).filter
        (·.has .afterEach) = [] := by
      simp [Extension.has, Extension.beforeEachHook]
    have after (hooks : List (Method σ ν Unit)) : (hooks.map (Extension.afterEachHook c.name)).filter
        (·.has .afterEach) = hooks.map (Extension.afterEachHook c.name) := by
      simp [Extension.has, Extension.afterEachHook]
    have hooks : ((hookExtensions c (hookOrder settings c)).map (·.extension)).filter (·.has .afterEach) =
        ((orderHooks (hookOrder settings c) c.afterEach).reverse).map (Extension.afterEachHook c.name) := by
      simp only [hookExtensions, List.map_append, List.map_map, List.filter_append]
      exact congrArg₂ _ (before _) (after _)
    rw [List.map_append, List.filter_append, hooks, List.reverse_append, List.map_reverse, List.reverse_reverse]

end Descriptor

/-- The registry of the innermost node of a path, where nothing asks for a position: what is registered for
the run is outside of all nodes, and each node is inside those above it. -/
theorem Registered.each {given : List (Extension σ ν)} (root : env.registry.Holds given)
    (registered : Registered env path) (plain : PlainPath path) :
    (registryAbove env path).extensions .beforeEach = given.filter (·.has .beforeEach) ++
        path.reverse.flatMap (·.descriptor.addsBefore env.settings) ∧
      (registryAbove env path).extensions .afterEach = path.flatMap (·.descriptor.addsAfter env.settings) ++
        (given.filter (·.has .afterEach)).reverse := by
  have holds := registered.holds root plain
  refine ⟨?_, ?_⟩
  · rw [holds.extensions, if_neg (by decide), List.filter_append, List.filter_flatMap]
    simp only [Descriptor.own_beforeEach]
  · rw [holds.extensions, if_pos (by decide), List.filter_append, List.reverse_append, List.filter_flatMap,
      List.reverse_flatMap, List.reverse_reverse]
    simp only [Function.comp_def, Descriptor.own_afterEach]

/-- The callbacks of these extensions are called one after the other, and none of them fails. -/
structure Called (capability : Capability) (es : List (Extension σ ν)) (ds : List (Deed σ ν)) : Prop where
  turns : InTurn (es.map fun e s => s = .callback capability e.name) ds
  fine : raised ds = []

theorem Deed.UntilFailure.inTurn {plan : List (Step → Prop)} (h : UntilFailure plan ds) (fine : raised ds = [])
    (counted : ∀ P ∈ plan, Counted P) : InTurn plan ds := by
  induction h with
  | nil => exact .nil
  | failed p =>
    exact absurd fine ((counted _ (by simp)).gathers p _ (.error _ : Except Fault Unit)).nonempty
  | succeeded p _ ih =>
    exact .step p (ih (by simpa using fine) fun P member => counted P (by simp [member]))

/-- Around a leaf none of whose steps fails, what the nodes on its path add is called from the outermost node
inwards, and behind it from the leaf outwards. -/
def EachNested (extensions : List (Declared σ ν)) (env : Environment σ ν) (path : List (Place σ ν))
    (v : Visit σ ν) (inside : List (Deed σ ν)) : Prop :=
  ∀ body rest, leafBody? path v.descriptor = some body → Entered inside rest → v.leaving ≠ .stuck →
    raised rest = [] → PlainPath (v.place :: path) →
    ∃ p finish, rest = p.deeds ++ finish ∧ LeafOrder v.place.registry body p ∧ Finish v.place finish ∧
      body p.body ∧
      Called .beforeEach ((extensions.map (·.extension)).filter (·.has .beforeEach) ++
        (v.place :: path).reverse.flatMap (·.descriptor.addsBefore env.settings)) p.beforeEach ∧
      Called .afterEach ((v.place :: path).flatMap (·.descriptor.addsAfter env.settings) ++
        ((extensions.map (·.extension)).filter (·.has .afterEach)).reverse) p.afterEach

/-- The extensions of every run only resolve parameters. -/
theorem builtin_filter {capability : Capability} {extensions : List (Declared σ ν)}
    (other : capability ≠ .parameterResolver) :
    ((builtinExtensions ++ extensions : List (Declared σ ν)).map (·.extension)).filter (·.has capability) =
      (extensions.map (·.extension)).filter (·.has capability) := by
  have none : ((builtinExtensions : List (Declared σ ν)).map (·.extension)).filter (·.has capability) = [] := by
    cases capability with
    | parameterResolver => exact absurd rfl other
    | _ => rfl
  rw [List.map_append, List.filter_append, none, List.nil_append]

theorem Law.eachNested {extensions : List (Declared σ ν)} (law : Law env path v inside)
    (root : env.registry.Holds ((builtinExtensions ++ extensions : List (Declared σ ν)).map (·.extension)))
    (registered : Registered env (v.place :: path)) : EachNested extensions env path v inside := by
  intro body rest leafy entered left fine plain
  obtain ⟨_, p, finish, rfl, order, finished⟩ := law.leafInOrder body rest leafy entered left
  rw [← law.registry] at order
  obtain ⟨before, after⟩ := registered.each root plain
  rw [builtin_filter (by decide)] at before after
  simp only [LeafParts.deeds, raised_append, List.append_eq_nil_iff] at fine
  obtain ⟨⟨⟨⟨⟨⟨⟨instantiation, beforeEach⟩, beforeExecution⟩, _⟩, _⟩, afterEach⟩, _⟩, _⟩ := fine
  refine ⟨p, finish, rfl, order, finished, order.body.held (by simp [*]), ⟨?_, beforeEach⟩, ⟨?_, afterEach⟩⟩
  · rw [← before]
    exact (order.beforeEach.held instantiation).inTurn beforeEach (counted_callbackSteps _ _)
  · rw [← after]
    exact order.afterEach.held instantiation

namespace Deed

mutual
/-- The hooks of classes that are steps of a node or of a node below, in order. -/
def classHooks : Deed σ ν → List (Capability × String × String)
  | .act (.step (.hook capability className method _) _ _) => [(capability, className, method)]
  | .act _ | .report _ => []
  | .visit _ inside => classHooksIn inside
def classHooksIn : List (Deed σ ν) → List (Capability × String × String)
  | [] => []
  | d :: ds => classHooks d ++ classHooksIn ds
end

@[simp] theorem classHooksIn_nil : classHooksIn ([] : List (Deed σ ν)) = [] := rfl

@[simp] theorem classHooksIn_append : classHooksIn (ds ++ es) = classHooksIn ds ++ classHooksIn es := by
  induction ds with
  | nil => rfl
  | cons d ds ih => simp only [List.cons_append, classHooksIn, ih, List.append_assoc]

@[simp] theorem classHooksIn_report (r : Report) : classHooksIn (.report r :: ds) = classHooksIn ds := rfl

def Hookless (P : Step → Prop) : Prop := ∀ capability className method inst, ¬ P (.hook capability className method inst)

theorem classHooks_of_hookless {P : Step → Prop} (hookless : Hookless P) (p : P s) (inside : List (Act ν))
    (fault : Option Fault) : classHooks (.act (.step s inside fault) : Deed σ ν) = [] := by
  cases s with
  | hook => exact absurd p (hookless _ _ _ _)
  | _ => rfl

theorem InTurn.classHooks_eq_nil {plan : List (Step → Prop)} (h : InTurn plan ds)
    (hookless : ∀ P ∈ plan, Hookless P) : classHooksIn ds = [] := by
  induction h with
  | nil => rfl
  | step p _ ih =>
    rw [classHooksIn, classHooks_of_hookless (hookless _ (by simp)) p,
      ih fun P member => hookless P (by simp [member]), List.append_nil]

theorem UntilFailure.classHooks_eq_nil {plan : List (Step → Prop)} (h : UntilFailure plan ds)
    (hookless : ∀ P ∈ plan, Hookless P) : classHooksIn ds = [] := by
  induction h with
  | nil => rfl
  | failed p => rw [classHooksIn, classHooks_of_hookless (hookless _ (by simp)) p, classHooksIn_nil]; rfl
  | succeeded p _ ih =>
    rw [classHooksIn, classHooks_of_hookless (hookless _ (by simp)) p,
      ih fun P member => hookless P (by simp [member]), List.append_nil]

theorem InTurn.classHooks_hookSteps {capability : Capability} {c : TestClass σ ν} {hooks : List (Method σ ν Unit)}
    (h : InTurn (hookSteps capability c hooks) ds) :
    classHooksIn ds = hooks.map fun m => (capability, c.name, m.name) := by
  induction hooks generalizing ds with
  | nil =>
    cases h
    rfl
  | cons m hooks ih =>
    cases h with
    | step p rest =>
      obtain ⟨inst, rfl⟩ := p
      rw [classHooksIn, ih rest]
      rfl

theorem classHooksIn_of_visits (only : ∀ d ∈ ds, ∃ w deeds, d = .visit w deeds) :
    classHooksIn ds = (visits ds).flatMap fun p => classHooksIn p.2 := by
  induction ds with
  | nil => rfl
  | cons d ds ih =>
    obtain ⟨w, deeds, rfl⟩ := only d (by simp)
    rw [classHooksIn, ih fun d member => only d (by simp [member])]
    rfl

theorem only_visits {trees : List (TestTree σ ν)} {m : Manner} {left : Leaving → Prop}
    (h : List.Forall₂ (Visits m left) trees ds) : ∀ d ∈ ds, ∃ w deeds, d = .visit w deeds := by
  induction h with
  | nil => simp
  | cons visit _ ih =>
    obtain ⟨w, deeds, rfl, _⟩ := visit
    exact List.forall_mem_cons.mpr ⟨⟨w, deeds, rfl⟩, ih⟩

end Deed

theorem hookless_callbackSteps (r : Registry (Extension σ ν)) (capability : Capability) :
    ∀ P ∈ r.callbackSteps capability, Hookless P := by
  intro P member _ _ _ _
  obtain ⟨e, _, rfl⟩ := List.mem_map.mp member
  exact Step.noConfusion

theorem hookless_setUpSteps (lifecycle : Lifecycle) : ∀ P ∈ setUpSteps lifecycle, Hookless P := by
  intro P member _ _ _ _
  cases lifecycle <;> simp only [setUpSteps, List.mem_cons, List.not_mem_nil, or_false] at member
  · rw [member]
    exact Step.noConfusion
  · rcases member with rfl | rfl <;> exact Step.noConfusion

theorem hookless_farewellSteps (r : Registry (Extension σ ν)) (instances : List Nat) :
    ∀ P ∈ r.farewellSteps instances, Hookless P := by
  intro P member _ _ _ _
  obtain ⟨number, _, member⟩ := List.mem_flatMap.mp member
  obtain ⟨e, _, rfl⟩ := List.mem_map.mp member
  exact Step.noConfusion

theorem Finish.classHooks {place : Place σ ν} (h : Finish place ds) : classHooksIn ds = [] := by
  obtain ⟨inside, fault, told, r, rfl, turns⟩ := h
  have silent : classHooksIn told = [] := turns.classHooks_eq_nil fun P member _ _ _ _ => by
    unfold Place.watcherSteps Registry.watcherSteps at member
    split at member
    · obtain ⟨e, _, rfl⟩ := List.mem_map.mp member
      exact Step.noConfusion
    · contradiction
  simp [classHooksIn, classHooks, silent]

def TestClass.told (settings : Settings) (c : TestClass σ ν) (capability : Capability)
    (hooks : List (Method σ ν Unit)) : List (Capability × String × String) :=
  (orderHooks (Execution.hookOrder settings c) hooks).map fun m => (capability, c.name, m.name)

/-- If nothing fails on the way into a class, its hooks before all are invoked before any of those in nodes
below, and its hooks after all behind all of them. Where a panic leaves the class, the latter are not invoked. -/
def AllNested (env : Environment σ ν) (v : Visit σ ν) (inside : List (Deed σ ν)) : Prop :=
  ∀ c rest, v.descriptor.role = .testClass c → Entered inside rest → v.leaving ≠ .stuck →
    (v.leaving = .ended → ∃ p finish, rest = p.deeds ++ finish ∧ ClassOrder env.settings v.place c p ∧
      Finish v.place finish ∧ (raised (p.setUp ++ p.beforeAll ++ p.beforeHooks) = [] →
        classHooksIn inside = c.told env.settings .beforeAll c.beforeAll ++
          (visits inside).flatMap (classHooksIn ·.2) ++ c.told env.settings .afterAll c.afterAll)) ∧
    ∀ payload, v.leaving = .torn payload → classHooksIn inside =
      c.told env.settings .beforeAll c.beforeAll ++ (visits inside).flatMap (classHooksIn ·.2)

theorem ClassEntry.classHooks {settings : Settings} {place : Place σ ν} {c : TestClass σ ν} {p : ClassParts σ ν}
    (h : ClassEntry settings place c p) (fine : raised (p.setUp ++ p.beforeAll ++ p.beforeHooks) = []) :
    classHooksIn (p.setUp ++ p.beforeAll ++ p.beforeHooks) = c.told settings .beforeAll c.beforeAll ∧
      visits (p.setUp ++ p.beforeAll ++ p.beforeHooks) = [] := by
  have none := fine
  simp only [raised_append, List.append_eq_nil_iff] at none
  obtain ⟨⟨setUp, beforeAll⟩, beforeHooks⟩ := none
  have hooks := (h.beforeHooks.held (by simp [setUp, beforeAll])).inTurn beforeHooks (counted_hookSteps _ _)
  refine ⟨?_, ?_⟩
  · rw [classHooksIn_append, classHooksIn_append, h.setUp.classHooks_eq_nil (hookless_setUpSteps _),
      (h.beforeAll.held setUp).classHooks_eq_nil (hookless_callbackSteps _ _), hooks.classHooks_hookSteps]
    rfl
  · simp [h.setUp.visits, h.beforeAll.visits UntilFailure.visits, hooks.visits]

theorem ChildrenExecuted.only {settings : Settings} {place : Place σ ν} (h : ChildrenExecuted settings place ds) :
    ∀ d ∈ ds, ∃ w deeds, d = .visit w deeds := by
  obtain ⟨sameThread, concurrent, rfl, first, second⟩ := h
  exact List.forall_mem_append.mpr ⟨only_visits first, only_visits second⟩

theorem ChildrenTorn.only {below : List (TestTree σ ν)} (h : ChildrenTorn payload below ds) :
    ∀ d ∈ ds, ∃ w deeds, d = .visit w deeds := by
  obtain ⟨before, _, _, rfl, ended, _, w, deeds, rfl, _⟩ := h
  refine List.forall_mem_append.mpr ⟨fun d member => ?_, by simp⟩
  obtain ⟨_, _, w, deeds, same, _⟩ := ended d member
  exact ⟨w, deeds, same⟩

theorem ClassOrder.classHooks {settings : Settings} {place : Place σ ν} {c : TestClass σ ν} {p : ClassParts σ ν}
    (h : ClassOrder settings place c p) (fine : raised (p.setUp ++ p.beforeAll ++ p.beforeHooks) = []) :
    classHooksIn p.deeds = c.told settings .beforeAll c.beforeAll ++
      (Deed.visits p.deeds).flatMap (classHooksIn ·.2) ++ c.told settings .afterAll c.afterAll := by
  have none := fine
  simp only [raised_append, List.append_eq_nil_iff] at none
  obtain ⟨⟨setUp, beforeAll⟩, _⟩ := none
  have after : classHooksIn p.afterHooks = c.told settings .afterAll c.afterAll :=
    (h.afterHooks.held (by simp [setUp, beforeAll])).classHooks_hookSteps
  rw [h.visits, ClassParts.deeds, classHooksIn_append, classHooksIn_append, classHooksIn_append,
    classHooksIn_append, (h.toClassEntry.classHooks fine).1, after,
    classHooksIn_of_visits (h.children fine).only,
    (h.afterAll.held setUp).classHooks_eq_nil (hookless_callbackSteps _ _),
    h.farewell.classHooks_eq_nil (hookless_farewellSteps _ _), List.append_nil, List.append_nil]

theorem ClassTorn.classHooks {settings : Settings} {place : Place σ ν} {c : TestClass σ ν} {p : ClassParts σ ν}
    (h : ClassTorn settings place c payload p) : classHooksIn p.deeds =
      c.told settings .beforeAll c.beforeAll ++ (visits p.deeds).flatMap (classHooksIn ·.2) := by
  obtain ⟨hooks, none⟩ := h.toClassEntry.classHooks h.entered
  simp only [ClassParts.deeds, h.afterHooks, h.afterAll, h.farewell, List.append_nil]
  rw [classHooksIn_append, visits_append, hooks, none, List.nil_append,
    classHooksIn_of_visits h.children.only]

theorem Entered.classHooks (h : Entered inside ds) :
    classHooksIn inside = classHooksIn ds ∧ visits inside = visits ds := by
  obtain ⟨asked, rfl⟩ := h
  exact ⟨by simp [admission, classHooksIn, Deed.classHooks], by simp [admission]⟩

theorem Law.allNested (law : Law env path v inside) : AllNested env v inside := by
  intro c rest role entered left
  obtain ⟨hooks, children⟩ := entered.classHooks
  rw [hooks, children]
  rcases law.entered entered left with ⟨ended, course, finish, rfl, did, finished⟩ | ⟨payload, left, torn⟩
  · refine ⟨fun _ => ?_, fun payload torn => by simp [ended] at torn⟩
    cases did with
    | testClass same order =>
      cases Role.testClass.inj (same.symm.trans role)
      refine ⟨_, finish, rfl, order, finished, fun fine => ?_⟩
      simp only [classHooksIn_append, visits_append, finished.classHooks, finished.visits, List.append_nil]
      exact order.classHooks fine
    | leaf same => simp [leafBody?, role] at same
    | template same => simp [role] at same
    | container _ kind => simp [role] at kind
  · refine ⟨fun ended => by simp [left] at ended, fun _ _ => ?_⟩
    cases torn with
    | testClass same torn =>
      cases Role.testClass.inj (same.symm.trans role)
      exact torn.classHooks
    | template same => simp [role] at same
    | container _ kind => simp [role] at kind

section
variable {c : Configuration} {extensions : List (Declared σ ν)} {tree : TestTree σ ν} {user : σ}
  {run : Run σ ν}

/-- Hooks run in the order that is asked for, those around each test and those around all tests of a class
from the outside in and back from the inside out. -/
theorem hooks_nested (executed : execute c extensions tree user = .ok run)
    (plain : ∀ x ∈ extensions, x.position = .default) :
    (∀ (order : HookOrder) (hooks : List (Method σ ν Unit)), InHookOrder order hooks (orderHooks order hooks)) ∧
    run.Always c extensions tree fun env path v inside =>
      EachNested extensions env path v inside ∧ AllNested env v inside := by
  refine ⟨orderHooks_inOrder, ?_⟩
  obtain ⟨registry, v, inside, registered, told, lawful⟩ := lawful_history executed
  obtain ⟨r, same, holds⟩ := Registry.holds_root.registerAll (builtinExtensions ++ extensions) (by
    simpa [builtinExtensions, or_imp, forall_and] using plain)
  cases registered.symm.trans same
  refine ⟨registry, v, inside, registered, told, ?_⟩
  exact (lawful.registered trivial).mono fun ⟨law, path⟩ =>
    ⟨law, law.eachNested holds path, law.allNested⟩

theorem hooks_nested_sample : ∃ run, execute .empty [] Blueprint.nested.build () = .ok run ∧
    run.events.map (·.displayName) = Blueprint.nestedNames ∧
    run.Always .empty [] Blueprint.nested.build fun env path v inside =>
      EachNested [] env path v inside ∧ AllNested env v inside := by
  obtain ⟨run, executed, _, names⟩ := Blueprint.nested_executed
  exact ⟨run, executed, names, (hooks_nested executed (List.forall_mem_nil _)).2⟩

end

end TestEngine

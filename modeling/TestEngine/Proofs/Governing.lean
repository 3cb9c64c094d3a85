import TestEngine.Proofs.Executing
import TestEngine.Proofs.Regimes

/-! Whole trees under a regime. Where code that makes instances and takes leave of them is under it as well, so is
all that a tree is executed with. -/
namespace TestEngine
variable {σ ν α : Type}

open Execution

/-- A regime for the code, too, that makes instances, invokes hooks on them and takes leave of them. -/
structure Tenure (P : (α : Type) → Engine σ ν α → Prop) (C : Descriptor σ ν → Engine σ ν Unit → Prop) : Prop
    extends Regime P C where
  stepping : ∀ {α} {code : Attempt σ ν α} {s : Step}, P _ code.run → s.isOfEnding = false →
    P _ (Engine.step s code).run
  holding : ∀ chain, P _ (Engine.modifyTop fun f => { f with instances := some chain })

/-- A regime for all of the engine in an environment, with the code that tells callbacks of errors and lets panics
through. -/
structure Governs (env : Environment σ ν) (P : (α : Type) → Engine σ ν α → Prop)
    (C : Descriptor σ ν → Engine σ ν Unit → Prop) : Prop extends Tenure P C where
  shows : ∀ c, P _ (showException c : Engine σ ν Unit)
  panicked : ∀ {α} payload, P α (Engine.halt (.panicked payload))
  settled : ∀ {α} {k : Settings → Engine σ ν α}, P _ (k env.settings) → P _ (Engine.settings >>= k)

variable {P : (α : Type) → Engine σ ν α → Prop} {C : Descriptor σ ν → Engine σ ν Unit → Prop}

namespace Tenure

theorem construct (d : Tenure P C) (c : TestClass σ ν) (enclosing : Option TestInstance) :
    P _ (Execution.construct c enclosing).run := by
  refine d.attempt_bind (d.lift d.freshNumber) fun number => ?_
  refine d.attempt_bind (d.stepping (d.invoke _ _) rfl) fun content => ?_
  refine d.attempt_bind (d.lift (d.extensions _)) fun es => ?_
  exact d.attempt_bind (d.postProcess _ _) fun _ => d.pure _

theorem constructAll (d : Tenure P C) (chain : List Level) (classes : List (TestClass σ ν)) :
    P _ (Execution.constructAll chain classes).run := by
  induction classes generalizing chain with
  | nil => exact d.pure _
  | cons c classes ih => exact d.attempt_bind (d.construct c _) fun inst => ih _

theorem instantiate (d : Tenure P C) : P _ (Execution.instantiate : Attempt σ ν (List Level)).run := by
  refine d.stepping (d.attempt_bind (d.lift d.frames) fun fs => ?_) rfl
  refine d.attempt_bind (d.constructAll _ _) fun chain => ?_
  exact d.attempt_bind (d.lift (d.holding chain)) fun _ => d.pure _

theorem farewell (d : Tenure P C) {level : Level} {es : List (Extension σ ν)} {code : Attempt σ ν Unit}
    (among : code ∈ farewells level es) : P _ code.run := by
  obtain ⟨e, _, found⟩ := List.mem_filterMap.mp among
  obtain ⟨callback, _, rfl⟩ := Option.map_eq_some_iff.mp found
  exact d.stepping (d.occupying _ (d.perform _)) rfl

theorem destroy (d : Tenure P C) (created : List Level) :
    P _ (Execution.destroy created : Attempt σ ν Unit).run := by
  refine d.attempt_bind (d.lift (d.extensions _)) fun es => ?_
  refine d.attempt_bind (d.lift (d.collectAll _ fun code member => ?_)) fun c => d.raising _
  obtain ⟨level, _, among⟩ := List.mem_flatMap.mp member
  exact d.farewell among

theorem invokeOnClass (d : Tenure P C) (capability : Capability) (className : String) (m : Method σ ν Unit) :
    P _ (Execution.invokeOnClass capability className m).run := by
  unfold Execution.invokeOnClass
  split
  · exact d.stepping (d.invoke _ _) rfl
  · refine d.attempt_bind (d.lift d.instances?) fun chain => ?_
    dsimp only
    split
    · exact d.stepping (d.pure _) rfl
    · exact d.stepping (d.invoke _ _) rfl

theorem takesCallbacks (d : Tenure P C) : TakesCallbacks P := by
  intro α capability k h
  unfold callbacks
  rw [bind_assoc]
  refine d.bind (d.extensions capability) fun es => ?_
  rw [pure_bind]
  refine h _ fun code member => ?_
  obtain ⟨e, _, found⟩ := List.mem_filterMap.mp member
  exact d.callback found fun className m _ => d.invokeOnClass capability className m

end Tenure

namespace Governs
variable {env : Environment σ ν}

theorem leaf (d : Governs env P C) {body : Option TestInstance → Attempt σ ν Unit} (h : ∀ inst, P _ (body inst).run) :
    P _ (Execution.leaf body) := by
  refine d.bind d.instantiate fun outcome => ?_
  split
  · exact d.pure _
  · refine d.bind (d.leafSteps d.takesCallbacks d.shows h) fun c => ?_
    exact d.bind (d.collect c (d.destroy _)) fun _ => d.pure _

theorem classSteps (d : Governs env P C) (c : TestClass σ ν) {children : Engine σ ν Unit}
    {skip : String → Engine σ ν Unit} (executes : P _ children) (skips : ∀ reason, P _ (skip reason)) :
    P _ (Execution.classSteps c children skip) := by
  have hooks (capability : Capability) (m : Method σ ν Unit) := d.invokeOnClass capability c.name m
  refine d.takesCallbacks fun steps each => ?_
  refine d.bind (d.collectUntilError _ each) fun first => ?_
  refine d.bind (d.proceedIf _ fun before => ?_) fun before => ?_
  · exact d.hookSteps _ (fun m _ => hooks _ m) fun steps each => d.collectUntilError _ each
  · refine d.bind (d.childrenUnless _ executes skips) fun _ => ?_
    refine d.bind (d.proceedIf _ fun before => ?_) fun after => ?_
    · exact d.hookSteps _ (fun m _ => hooks _ m) fun steps each => d.collectAll _ each
    · exact d.takesCallbacks fun steps each => d.collectAll _ each

theorem executeClass (d : Governs env P C) (c : TestClass σ ν) (lifecycle : Lifecycle) {children : Engine σ ν Unit}
    {skip : String → Engine σ ν Unit} (executes : P _ children) (skips : ∀ reason, P _ (skip reason)) :
    P _ (Execution.executeClass c lifecycle children skip) := by
  refine d.bind (d.attempt_bind (d.check _) fun _ => ?_) fun outcome => ?_
  · split
    · exact d.pure _
    · exact d.instantiate
  · split
    · exact d.bind (d.childrenUnless _ executes skips) fun _ => d.pure _
    · refine d.bind (d.classSteps c executes skips) fun gathered => ?_
      exact d.bind (d.collect _ (d.destroy _)) fun _ => d.pure _

theorem executeDraw (d : Governs env P C) (t : Template σ ν) (template : Descriptor σ ν) (index : Nat)
    (draw : Draw σ ν (TemplateInvocation (Extension σ ν))) : P _ (Execution.executeDraw t template index draw) := by
  refine d.bind (d.drawItem draw) fun outcome => ?_
  split
  · exact d.pure _
  · dsimp only
    split
    · refine d.bind (d.bind (d.mark rfl rfl) fun _ => ?_) fun _ => d.pure _
      exact d.visit _ (fun _ => d.pure _) (d.leaf (d.invokeTest _ _))
    · exact d.pure _

theorem executeSource (d : Governs env P C) (t : Template σ ν) (template : Descriptor σ ν) (drawn : Nat)
    (source : Source σ ν (TemplateInvocation (Extension σ ν))) :
    P _ (Execution.executeSource t template drawn source) := by
  unfold Execution.executeSource
  split
  · exact d.inTurn (d.executeDraw t template) _ _
  · split
    · exact d.upTo (fun _ => d.executeDraw t template _ _) _ _ _
    · exact d.withoutEnd (d.upTo (fun _ => d.executeDraw t template _ _) _ _ _)

theorem executeProviders (d : Governs env P C) (t : Template σ ν) (template : Descriptor σ ν)
    (ps : List (String × InvocationProvider σ ν (Extension σ ν))) (drawn : Nat) :
    P _ (Execution.executeProviders t template drawn ps) := by
  induction ps generalizing drawn with
  | nil => exact d.pure _
  | cons p ps ih =>
    refine d.bind (d.obtain _ _) fun outcome => ?_
    split
    · exact d.pure _
    · refine d.bind (d.unlessClosed _ _ (d.executeSource t template _ _)) fun last => ?_
      refine d.bind (d.collect _ (d.closeStream _)) fun c => ?_
      split
      · exact ih _
      · exact d.pure _

theorem supportingProviders (d : Governs env P C) (es : List (Extension σ ν)) :
    P _ (Execution.supportingProviders es) := by
  induction es with
  | nil => exact d.pure _
  | cons e es ih =>
    unfold Execution.supportingProviders
    split
    · exact ih
    · refine d.bind (d.plain (d.bind (d.run _) fun answer => ?_) rfl) fun outcome => ?_
      · split <;> exact d.pure _
      · split
        · exact d.panicked _
        · exact ih
        · exact d.bind ih fun _ => d.pure _

theorem executeTemplate (d : Governs env P C) (t : Template σ ν) (node : Descriptor σ ν) :
    P _ (Execution.executeTemplate t node) := by
  refine d.bind (d.extensions _) fun es => ?_
  refine d.bind (d.supportingProviders es) fun providers => ?_
  refine d.bind (d.collect _ (d.check _)) fun c => ?_
  refine d.bind (d.proceedIf c fun _ => ?_) fun _ => d.pure _
  refine d.bind (d.executeProviders t node providers 0) fun last => ?_
  exact d.collect _ (d.check _)

theorem executeEach (d : Governs env P C) {trees : List (TestTree σ ν)} (h : ∀ t ∈ trees, P _ (Execution.execute t)) :
    P _ (Execution.executeEach (trees.map fun t => (t.descriptor, Execution.execute t))) := by
  induction trees with
  | nil => exact d.pure _
  | cons t ts ih => exact d.bind (h t (by simp)) fun _ => ih fun t member => h t (by simp [member])

/-- On one thread no child runs beside its siblings. -/
theorem executeChildren (d : Governs env P C) (sequential : env.settings.parallel = false)
    {trees : List (TestTree σ ν)} (h : ∀ t ∈ trees, P _ (Execution.execute t)) :
    P _ (Execution.executeChildren (childrenOf trees)) := by
  refine d.bind d.top? fun top => ?_
  split
  · exact d.pure _
  · rename_i f
    refine d.settled ?_
    have alone (t : TestTree σ ν) : isConcurrent env.settings f t.descriptor = false := by
      simp [isConcurrent, modeOf, sequential]
    have apart : (childrenOf trees).partition (fun child => isConcurrent env.settings f child.1) =
        ([], childrenOf trees) := by
      rw [childrenOf_eq, List.partition_eq_filter_filter]
      simp [List.filter_map, Function.comp_def, alone]
    rw [apart, childrenOf_eq]
    exact d.bind (d.executeEach h) fun _ => d.pure _

theorem executeRole (d : Governs env P C) (sequential : env.settings.parallel = false) (node : Descriptor σ ν)
    {trees : List (TestTree σ ν)} (h : ∀ t ∈ trees, P _ (Execution.execute t)) :
    P _ (Execution.executeRole node (childrenOf trees) (skipAll trees)) := by
  have children := d.executeChildren sequential h
  unfold Execution.executeRole
  split
  · exact d.bind children fun _ => d.pure _
  · exact d.bind d.top? fun top => d.executeClass _ _ children (d.skipAll trees)
  · exact d.leaf (d.invokeTest _ _)
  · exact d.executeTemplate _ node
  · exact d.leaf (d.runFactory _)
  · refine d.bind (d.bind d.frames fun fs => ?_) fun found => ?_
    · split <;> exact d.pure _
    · split
      · exact d.leaf (d.invokeTest _ _)
      · exact d.bind children fun _ => d.pure _

theorem execute (d : Governs env P C) (sequential : env.settings.parallel = false) (t : TestTree σ ν) :
    P _ (Execution.execute t) := by
  induction t using TestTree.induct with
  | node node cs ih => exact d.visit _ (d.skipAll cs) (d.executeRole sequential node ih)

end Governs
end TestEngine

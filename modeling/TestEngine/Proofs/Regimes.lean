import TestEngine.Proofs.Discipline

/-! What the engine does around code of the user. A property that all code of the user has goes over to the steps
of a node, and from what is done within a node to the visit to that and to the code above. -/
namespace TestEngine
variable {σ ν α β : Type}

open Execution

/-- A step of making instances, of invoking hooks of their classes, or of taking leave of them. -/
def Step.isOfInstances : Step → Bool
  | .construction _ _ _ | .instantiation | .hook _ _ _ _ | .preDestroy _ _ => true
  | _ => false

def Step.isOfEnding : Step → Bool
  | .closeStore | .watcher _ => true
  | _ => false

def Step.isPlain (s : Step) : Bool := !s.isOfInstances && !s.isOfEnding

theorem Step.apart_of_isPlain {s : Step} (plain : s.isPlain = true) :
    s.isOfInstances = false ∧ s.isOfEnding = false := by
  simpa [isPlain] using plain

theorem Step.isOfInstances_of_isOfEnding {s : Step} (ending : s.isOfEnding = true) : s.isOfInstances = false := by
  cases s <;> first | contradiction | rfl

theorem Step.isPlain_of_isAsking {s : Step} (asking : s.isAsking = true) : s.isPlain = true := by
  cases s <;> first | contradiction | rfl

def Extension.each? (e : Extension σ ν) : Capability → Option (EachCallback σ ν)
  | .beforeEach => e.beforeEach
  | .afterEach => e.afterEach
  | _ => none

/-- Callbacks have the property, and so has code that takes those of a node as its steps. -/
def TakesCallbacks (P : (α : Type) → Engine σ ν α → Prop) : Prop :=
  ∀ {α capability} {k : List (Attempt σ ν Unit) → Engine σ ν α},
    (∀ steps, (∀ code ∈ steps, P _ code.run) → P _ (k steps)) → P _ (callbacks capability >>= k)

theorem mem_orderHooks {order : HookOrder} {hooks : List (Method σ ν Unit)} {m : Method σ ν Unit}
    (h : m ∈ orderHooks order hooks) : m ∈ hooks := by
  cases order with
  | declaration => exact h
  | alphanumeric => exact List.mem_mergeSort.mp h

/-- A discipline for the steps of a node, too. Instances are made and hooks invoked apart from it, and so is the end
of the node. -/
structure Practice (P : (α : Type) → Engine σ ν α → Prop) : Prop extends Discipline P where
  plain : ∀ {α} {code : Attempt σ ν α} {s : Step}, P _ code.run → s.isPlain = true → P _ (Engine.step s code).run

namespace Practice
variable {P : (α : Type) → Engine σ ν α → Prop}

theorem discard (d : Practice P) {m : Engine σ ν α} (h : P α m) : P _ (discard m) := d.map h _

theorem currentRegistry (d : Practice P) :
    P _ (Engine.currentRegistry : Engine σ ν (Registry (Extension σ ν))) :=
  d.bind d.top? fun f => by cases f <;> exact d.reads fun _ _ => ⟨_, rfl⟩

theorem raising (d : Practice P) (wrong : Option TestError) :
    P _ (Engine.raising wrong : Attempt σ ν Unit).run := by
  cases wrong <;> exact d.pure _

theorem check (d : Practice P) (wrong : Option TestError) : P _ (Engine.check wrong : Attempt σ ν Unit).run :=
  d.plain (d.raising wrong) rfl

theorem registration (d : Practice P) (refusal : Option TestError) :
    P _ (Execution.registration refusal : Attempt σ ν Unit).run := d.plain (d.raising refusal) rfl

theorem evaluateConditions (d : Practice P) : P _ (Execution.evaluateConditions : Attempt σ ν Verdict).run := by
  refine d.plain (d.bind (d.reads fun _ _ => ⟨_, rfl⟩) fun deactivated => ?_) rfl
  refine d.bind (d.bind (d.extensions _) fun _ => d.askConditions d.run _ _) fun verdict => ?_
  split <;> exact d.pure _

theorem postProcess (d : Practice P) (inst : TestInstance) (es : List (Extension σ ν)) :
    P _ (Execution.postProcess inst es).run := by
  induction es with
  | nil => exact d.pure _
  | cons e es ih =>
    unfold Execution.postProcess
    split
    · exact ih
    · exact d.attempt_bind (d.plain (d.perform _) rfl) fun _ => ih

/-- An extension's callback may be a hook of a class. -/
theorem callback (d : Practice P) {capability : Capability} {e : Extension σ ν} {code : Attempt σ ν Unit}
    (h : Execution.callback capability e = some code)
    (hooks : ∀ className m, e.each? capability = some (.hook className m) →
      P _ (invokeOnClass capability className m).run) : P _ code.run := by
  obtain ⟨inner, found, rfl⟩ := Option.map_eq_some_iff.mp h
  have each (o : Option (EachCallback σ ν)) (same : e.each? capability = o)
      (h : o.map (eachCode capability) = some inner) : P _ inner.run := by
    obtain ⟨c, rfl, rfl⟩ := Option.map_eq_some_iff.mp h
    cases c with
    | code code => exact d.perform code
    | hook className m => exact hooks className m same
  have plain (o : Option (Code σ ν Unit)) (h : o.map Execution.perform = some inner) : P _ inner.run := by
    obtain ⟨code, _, rfl⟩ := Option.map_eq_some_iff.mp h
    exact d.perform code
  refine d.plain ?_ rfl
  unfold callbackCode at found
  split at found
  · exact plain _ found
  · exact plain _ found
  · exact each _ rfl found
  · exact each _ rfl found
  · exact plain _ found
  · exact plain _ found
  · contradiction

theorem collect (d : Practice P) (c : Collector) {code : Attempt σ ν Unit} (h : P _ code.run) :
    P _ (Execution.collect c code) := d.bind h fun _ => d.pure _

section
variable {steps : List (Attempt σ ν Unit)}

theorem collectUntilError (d : Practice P) (c : Collector) (h : ∀ code ∈ steps, P _ code.run) :
    P _ (Execution.collectUntilError c steps) := by
  induction steps generalizing c with
  | nil => exact d.pure _
  | cons code rest ih =>
    unfold Execution.collectUntilError
    split
    · exact d.bind (d.collect c (h code (by simp))) fun c => ih c fun code member => h code (by simp [member])
    · exact d.pure _

theorem collectAll (d : Practice P) (c : Collector) (h : ∀ code ∈ steps, P _ code.run) :
    P _ (Execution.collectAll c steps) := by
  induction steps generalizing c with
  | nil => exact d.pure _
  | cons code rest ih =>
    exact d.bind (d.collect c (h code (by simp))) fun c => ih c fun code member => h code (by simp [member])

/-- Watchers are told in steps of their own. -/
theorem announce (d : Practice P) (notified : ∀ {extension} {code : Attempt σ ν Unit}, P _ code.run →
    P _ (Engine.step (.watcher extension) code).run) (node : Descriptor σ ν)
    (tell : Watcher σ ν → Program σ ν Unit) : P _ (Execution.announce node tell) := by
  unfold Execution.announce notify
  split
  · refine d.bind (d.extensions _) fun es => d.discard (d.collectAll _ fun code member => ?_)
    obtain ⟨e, _, found⟩ := List.mem_filterMap.mp member
    obtain ⟨watcher, _, rfl⟩ := Option.map_eq_some_iff.mp found
    exact notified (d.observe _)
  · exact d.pure ()

theorem proceedIf (d : Practice P) {entered : Bool} (c : Collector) {next : Collector → Engine σ ν Collector}
    (h : ∀ c, P _ (next c)) : P _ (Execution.proceedIf entered c next) := by
  unfold Execution.proceedIf
  split
  · exact h c
  · exact d.pure _

/-- The hooks of a class as the steps that its own code takes. -/
theorem hookSteps (d : Practice P) (capability : Capability) {c : TestClass σ ν} {hooks : List (Method σ ν Unit)}
    (each : ∀ m ∈ hooks, P _ (invokeOnClass capability c.name m).run) {k : List (Attempt σ ν Unit) → Engine σ ν α}
    (h : ∀ steps, (∀ code ∈ steps, P _ code.run) → P _ (k steps)) : P _ (hooksOf capability c hooks >>= k) := by
  unfold hooksOf
  rw [bind_assoc]
  refine d.bind d.settings fun settings => ?_
  rw [pure_bind]
  refine h _ fun code member => ?_
  obtain ⟨m, among, rfl⟩ := List.mem_map.mp member
  exact each m (mem_orderHooks among)

end

theorem innermost? (d : Practice P) : P _ (Execution.innermost? : Engine σ ν (Option TestInstance)) :=
  d.bind d.instances? fun _ => d.pure _

theorem leafSteps (d : Practice P) (takes : TakesCallbacks P)
    (shows : ∀ c, P _ (showException c : Engine σ ν Unit)) {body : Option TestInstance → Attempt σ ν Unit}
    (h : ∀ inst, P _ (body inst).run) : P _ (Execution.leafSteps body) := by
  refine takes fun steps each => ?_
  refine d.bind (d.collectUntilError _ each) fun c => ?_
  refine d.bind (d.proceedIf c fun c => ?_) fun c => ?_
  · refine takes fun steps each => ?_
    refine d.bind (d.collectUntilError _ each) fun c => ?_
    refine d.bind (d.proceedIf c fun c => d.bind d.innermost? fun inst => d.collect c (h inst)) fun c => ?_
    refine d.bind (shows c) fun _ => ?_
    exact takes fun steps each => d.collectAll _ each
  · refine d.bind (shows c) fun _ => ?_
    exact takes fun steps each => d.collectAll _ each

theorem childrenUnless (_ : Practice P) (c : Collector) {children : Engine σ ν Unit}
    {skip : String → Engine σ ν Unit} (executes : P _ children) (skips : ∀ reason, P _ (skip reason)) :
    P _ (Execution.childrenUnless c children skip) := by
  unfold Execution.childrenUnless
  split
  · exact executes
  · exact skips _

theorem drawItem (d : Practice P) (draw : Draw σ ν α) : P _ (Execution.drawItem draw) := by
  refine d.bind (d.plain ?_ rfl) fun outcome => ?_
  · rw [ExceptT.run_mk]
    exact d.act _
  · split <;> exact d.pure _

theorem closeStream (d : Practice P) (s : Stream σ ν α) : P _ (Execution.closeStream s).run := by
  refine d.plain ?_ rfl
  rw [ExceptT.run_mk]
  exact d.act _

theorem closing (d : Practice P) (onClose : List (Action σ ν Unit)) (closed : Bool) (error : Option TestError) :
    P _ (Execution.closing onClose closed error) := d.collect _ (d.closeStream _)

theorem inTurn (d : Practice P) {δ : Type} {take : Nat → δ → Engine σ ν (Option TestError)}
    (h : ∀ i x, P _ (take i x)) (drawn : Nat) (xs : List δ) : P _ (Execution.inTurn take drawn xs) := by
  induction xs generalizing drawn with
  | nil => exact d.pure _
  | cons x xs ih =>
    refine d.bind (h _ x) fun error => ?_
    split
    · exact d.pure _
    · exact ih (drawn + 1)

theorem upTo (d : Practice P) {take : Nat → Engine σ ν (Option TestError)} (h : ∀ i, P _ (take i))
    (drawn left i : Nat) : P _ (Execution.upTo take drawn left i) := by
  induction left generalizing i with
  | zero => exact d.pure _
  | succ left ih =>
    refine d.bind (h i) fun error => ?_
    split
    · exact d.pure _
    · exact ih (i + 1)

theorem withoutEnd (d : Practice P) {draws : Engine σ ν (Nat × Option TestError)} (h : P _ draws) :
    P _ (Execution.withoutEnd draws) := by
  refine d.bind h fun last => ?_
  split
  · exact d.pure _
  · exact d.halt nofun

theorem unlessClosed (d : Practice P) (closed : Bool) (drawn : Nat) {draws : Engine σ ν (Nat × Option TestError)}
    (h : P _ draws) : P _ (Execution.unlessClosed closed drawn draws) := by
  unfold Execution.unlessClosed
  split
  · exact d.pure _
  · exact h

theorem obtain (d : Practice P) (name : String) (p : InvocationProvider σ ν (Extension σ ν)) :
    P _ (Execution.obtain name p).run := by
  refine d.plain (d.bind (d.perform _) fun outcome => ?_) rfl
  split <;> exact d.pure _

end Practice

/-- A practice for what a node comes to its end with, too. -/
structure Completes (P : (α : Type) → Engine σ ν α → Prop) : Prop extends Practice P where
  report : ∀ node kind, P _ (Engine.report node kind)
  emptied : P _ (Engine.modifyTop fun f => { f with store := f.store.close })
  ending : ∀ {code : Attempt σ ν Unit} {s : Step}, P _ code.run → s.isOfEnding = true → P _ (Engine.step s code).run

namespace Completes
variable {P : (α : Type) → Engine σ ν α → Prop}

theorem closeStore (d : Completes P) : P _ (Execution.closeStore : Attempt σ ν Unit).run := by
  refine d.attempt_bind (d.lift d.top?) fun f => ?_
  split
  · exact d.pure _
  · refine d.attempt_bind (d.lift d.emptied) fun _ => d.ending ?_ rfl
    rw [ExceptT.run_mk]
    exact d.act _

theorem announced (d : Completes P) (node : Descriptor σ ν) (tell : Watcher σ ν → Program σ ν Unit) :
    P _ (Execution.announce node tell) := d.announce (fun h => d.ending h rfl) node tell

theorem finish (d : Completes P) (node : Descriptor σ ν) (r : ExecutionResult) : P _ (Execution.finish node r) := by
  refine d.bind d.closeStore fun outcome => ?_
  exact d.bind (d.announced node _) fun _ => d.report _ _

theorem reportSkipped (d : Completes P) (node : Descriptor σ ν) (reason : String) {below : Engine σ ν Unit}
    (h : P _ below) : P _ (Execution.reportSkipped node reason below) := by
  refine d.bind (d.report _ _) fun _ => ?_
  refine d.bind (d.announced node _) fun _ => ?_
  exact d.bind h fun _ => d.discard d.closeStore

end Completes

namespace Entry

/-- An entry that says of no node how it is begun or ended. -/
def isRoutine : Entry ν → Bool
  | .event e =>
    match e.kind with
    | .registered | .entry _ => true
    | .started | .skipped _ | .finished _ => false
  | .step _ s _ => !s.isOfEnding
  | .note _ | .locked _ _ | .unlocked _ => true

def isStep : Entry ν → Bool
  | .step _ _ _ => true
  | _ => false

end Entry

/-- A practice for the engine, too: `C` is what the property comes to for the code that a node is visited with,
up to its end. -/
structure Regime (P : (α : Type) → Engine σ ν α → Prop) (C : Descriptor σ ν → Engine σ ν Unit → Prop) : Prop
    extends Practice P where
  mark : ∀ {e : Entry ν}, e.isRoutine = true → e.isStep = false → P _ (Engine.append e)
  timed : ∀ deadline label (m : Method σ ν Unit) inst, P _ (Engine.before deadline label (invoke m inst)).run
  abandon : ∀ inst, P _ (Engine.abandon inst)
  first : ∀ {α node} {m : Engine σ ν α} {k : α → Engine σ ν Unit}, P α m → (∀ a, C node (k a)) → C node (m >>= k)
  started : ∀ {α node} {m : Engine σ ν α} {result : α → ExecutionResult}, P α m →
    C node (do Engine.report node.node .started; finish node (result (← m)))
  skipped : ∀ {node} reason {below : Engine σ ν Unit}, P _ below → C node (reportSkipped node reason below)
  within : ∀ {f : Frame σ ν} {code : Engine σ ν Unit}, f.store = {} → C f.descriptor code →
    P _ (Engine.within f code)

namespace Regime
variable {P : (α : Type) → Engine σ ν α → Prop} {C : Descriptor σ ν → Engine σ ν Unit → Prop}

theorem abandonAfter (d : Regime P C) (outcome : Except Fault Unit) (inst : Option TestInstance) :
    P _ (Execution.abandonAfter outcome inst : Engine σ ν Unit) := by
  unfold Execution.abandonAfter
  split
  · split
    · exact d.abandon _
    · exact d.pure _
  · exact d.pure _

theorem invokeTest (d : Regime P C) (m : Method σ ν Unit) (limit : Option Duration) (inst : Option TestInstance) :
    P _ (Execution.invokeTest m limit inst).run := by
  refine d.bind d.settings fun settings => ?_
  dsimp only
  split
  · exact d.plain (d.invoke _ _) rfl
  · refine d.bind d.top? fun top => ?_
    refine d.bind (d.plain (d.timed _ _ _ _) rfl) fun outcome => ?_
    exact d.bind (d.abandonAfter outcome _) fun _ => d.pure _

theorem markTaken (d : Regime P C) (taken : List String) {e : Entry ν} (routine : e.isRoutine = true)
    (mark : e.isStep = false) : P _ (Execution.markTaken taken e) := by
  unfold Execution.markTaken
  cases taken.isEmpty
  · exact d.mark routine mark
  · exact d.pure _

/-- A node that is entered has a store of its own. -/
theorem entering (d : Regime P C) {node : Descriptor σ ν} (registry : Registry (Extension σ ν)) (held : List String)
    {code : Engine σ ν Unit} (h : C node code) :
    P _ (Execution.frameFor node registry held >>= fun f => Engine.within f code) := by
  unfold Execution.frameFor
  rw [bind_assoc]
  refine d.bind d.settings fun settings => ?_
  rw [bind_assoc]
  refine d.bind d.top? fun top => ?_
  rw [pure_bind]
  exact d.within rfl h

variable {node : Descriptor σ ν}

theorem visitSkipped (d : Regime P C) (reason : String) {below : Engine σ ν Unit} (h : P _ below) :
    P _ (Execution.visitSkipped node reason below) :=
  d.bind d.currentRegistry fun _ => d.bind d.settings fun _ => d.entering _ _ (d.skipped reason h)

mutual
theorem skip (d : Regime P C) : (t : TestTree σ ν) → (reason : String) → P _ (Execution.skip t reason)
  | .node _ cs, reason => d.visitSkipped reason (d.skipAll cs reason)
theorem skipAll (d : Regime P C) : (ts : List (TestTree σ ν)) → (reason : String) →
    P _ (Execution.skipAll ts reason)
  | [], _ => d.pure _
  | t :: ts, reason => d.bind (d.skip t reason) fun _ => d.skipAll ts reason
end

variable {skips : String → Engine σ ν Unit}

theorem refused (d : Regime P C) (e : TestError) (below : ∀ reason, P _ (skips reason)) :
    C node (Execution.refused node e skips) :=
  d.first (d.discard (d.registration _)) fun _ => d.started (below _)

theorem admitted (d : Regime P C) {body : Engine σ ν ExecutionResult} (below : ∀ reason, P _ (skips reason))
    (bodily : P _ body) : C node (Execution.admitted node skips body) := by
  refine d.first (d.discard (d.registration _)) fun _ => ?_
  refine d.first d.evaluateConditions fun verdict => ?_
  split
  · exact d.skipped _ (below _)
  · exact d.started bodily
  · exact d.started (below _)

theorem visit (d : Regime P C) (subtree : List String) {body : Engine σ ν ExecutionResult}
    (below : ∀ reason, P _ (skips reason)) (bodily : P _ body) :
    P _ (Execution.visit node subtree skips body) := by
  refine d.bind d.top? fun top => ?_
  refine d.bind (d.markTaken _ rfl rfl) fun _ => ?_
  refine d.bind ?_ fun _ => d.markTaken _ rfl rfl
  refine d.bind d.currentRegistry fun parent => ?_
  refine d.bind d.settings fun settings => ?_
  split
  · exact d.entering _ _ (d.refused _ below)
  · exact d.entering _ _ (d.admitted below bodily)

theorem executeDynamicNode (d : Regime P C) (segment : String) (kind : NodeKind) (index : Nat) (name : String)
    {body : Engine σ ν Collector} (h : P _ body) :
    P _ (Execution.executeDynamicNode segment kind index name body) := by
  refine d.bind d.top? fun top => ?_
  split
  · exact d.pure _
  · exact d.bind (d.mark rfl rfl) fun _ => d.within rfl (d.started h)

mutual
theorem executeDynamic (d : Regime P C) :
    (n : DynamicNode σ ν) → (index : Nat) → P _ (Execution.executeDynamic n index)
  | .test _ body, _ =>
    d.executeDynamicNode _ _ _ _ (d.collect _ (d.plain (d.perform body) rfl))
  | .container _ ⟨source, _, closed⟩, _ =>
    d.executeDynamicNode _ _ _ _
      (d.bind (d.unlessClosed closed 0 (d.executeNodes source)) fun _ => d.closing _ _ _)
theorem executeNodes (d : Regime P C) : (source : Source σ ν (DynamicNode σ ν)) →
    P _ (Execution.executeNodes source)
  | .listed draws => d.executeListed draws 0
  | .endless draw => by
    refine d.withoutEnd (d.upTo (fun i => ?_) _ _ _)
    exact d.executeNode (draw i) (i + 1)
theorem executeListed (d : Regime P C) : (draws : List (Draw σ ν (DynamicNode σ ν))) → (drawn : Nat) →
    P _ (Execution.executeListed draws drawn)
  | [], _ => d.pure _
  | x :: draws, drawn =>
    d.bind (d.executeNode x (drawn + 1)) fun error => by
      cases error with
      | some e => exact d.pure _
      | none => exact d.executeListed draws (drawn + 1)
theorem executeNode (d : Regime P C) : (x : Draw σ ν (DynamicNode σ ν)) → (index : Nat) →
    P _ (Execution.executeNode x index)
  | ⟨_, .value n⟩, index =>
    d.bind (d.discard (d.drawItem _)) fun _ => d.bind (d.executeDynamic n index) fun _ => d.pure _
  | ⟨_, .error _⟩, _ => d.bind (d.discard (d.drawItem _)) fun _ => d.pure _
  | ⟨_, .panic _⟩, _ => d.bind (d.discard (d.drawItem _)) fun _ => d.pure _
end

theorem runFactory (d : Regime P C) (f : Factory σ ν) (inst : Option TestInstance) :
    P _ (Execution.runFactory f node inst).run := by
  refine d.attempt_bind (d.plain (d.invoke f.method _) rfl) fun stream => ?_
  refine d.attempt_bind (d.lift (d.unlessClosed _ _ (d.executeNodes _))) fun last => ?_
  refine d.attempt_bind (d.lift (d.closing _ _ _)) fun c => ?_
  refine d.attempt_bind (d.lift (d.collect c (d.check _))) fun c => ?_
  exact d.raising _

end Regime
end TestEngine

import TestEngine.Proofs.PairedTrees
import TestEngine.Proofs.Rebodying

/-! Two runs of a test, with another body in each. Both bodies only log, so that the runs show the same errors up to
the body and different ones at most behind it, where nothing that is registered looks at them. -/
namespace TestEngine
variable {σ ν α β : Type}

open Execution

inductive Program.OnlyLogs : Program σ ν α → Prop where
  | done (value : α) : OnlyLogs (.done value)
  | panic (payload : PanicPayload) : OnlyLogs (.panic payload)
  | note (n : ν) {next : Program σ ν α} (logs : OnlyLogs next) : OnlyLogs (.note n next)
  | look {next : View → Program σ ν α} (logs : ∀ v, OnlyLogs (next v)) : OnlyLogs (.look next)

/-- Two views of a node that are the same but for the error that is shown. -/
def View.AtNode (node : Node) (v v' : View) : Prop := v.node = node ∧ v' = { v with exception := v'.exception }

/-- What the extension does behind the body of a test does not depend on how that test has ended, told by the error
that is shown or by the call of a watcher. Resolvers and conditions may be asked there, too. -/
structure Extension.Overlooks (node : Node) (e : Extension σ ν) : Prop where
  afterTestExecution : ∀ code ∈ e.afterTestExecution, code.Blind (View.AtNode node)
  afterEach : ∀ c ∈ e.afterEach, c.Blind (View.AtNode node)
  preDestroy : ∀ f ∈ e.instancePreDestroy, ∀ inst, (f inst).Blind (View.AtNode node)
  watcher : ∀ w ∈ e.watcher, ∀ r r', (verdictOn r w).Alike (View.AtNode node) Eq (verdictOn r' w)
  resolver : ∀ r ∈ e.parameterResolver, r.Blind (View.AtNode node)
  condition : ∀ code ∈ e.condition, code.Blind (View.AtNode node)

def Registry.Overlooks (node : Node) (r : Registry (Extension σ ν)) : Prop := ∀ e ∈ r.all, e.Overlooks node

/-- The same event, or the end of the same node with another result. -/
inductive Event.SameButEnd (node : Node) : Event → Event → Prop where
  | same (e : Event) : SameButEnd node e e
  | ended (r r' : ExecutionResult) : SameButEnd node (.of node (.finished r)) (.of node (.finished r'))

namespace Registry
variable {node : Node} {r r' : Registry (Extension σ ν)}

theorem Overlooks.registerAll {ds : List (Declared σ ν)} (overlooks : r.Overlooks node)
    (own : ∀ x ∈ ds, x.extension.Overlooks node) (registered : Execution.registerAll r ds = .ok r') :
    r'.Overlooks node := forall_registerAll registered overlooks own

theorem Overlooks.child (overlooks : r.Overlooks node) (scope : Scope) : (r.child scope).Overlooks node :=
  fun e member => overlooks e (mem_all_child.mp member)

end Registry

theorem forall₂_modify {R : α → α → Prop} {change : α → α} (kept : ∀ x y, R x y → R (change x) (change y))
    {xs ys : List α} (h : List.Forall₂ R xs ys) (i : Nat) :
    List.Forall₂ R (xs.modify i change) (ys.modify i change) := by
  induction h generalizing i with
  | nil => cases i <;> exact .nil
  | cons here rest ih =>
    cases i with
    | zero => exact .cons (kept _ _ here) rest
    | succ i => exact .cons here (ih i)

theorem forall₂_tail {R : α → β → Prop} {xs : List α} {ys : List β} (h : List.Forall₂ R xs ys) :
    List.Forall₂ R xs.tail ys.tail := by
  cases h with
  | nil => exact .nil
  | cons _ rest => exact rest

namespace Coupling

/-- Frames that look alike are seen alike, but for their registries and the error that is shown. -/
theorem viewOf_faces {f f' : Frame σ ν} {fs fs' : List (Frame σ ν)} (c : Configuration) (abandoned : List Nat)
    (faces : (f' :: fs').map Frame.face = (f :: fs).map Frame.face) :
    viewOf c abandoned (f' :: fs') = { viewOf c abandoned (f :: fs) with
      exception := f'.exception
      registry := (viewOf c abandoned (f' :: fs')).registry } := by
  obtain ⟨face, above⟩ := List.cons.inj faces
  have instances := congrArg (List.findSome? Face.instances) faces
  simp only [List.findSome?_map] at instances
  replace instances : (f' :: fs').findSome? (·.instances) = (f :: fs).findSome? (·.instances) := instances
  have node : f'.descriptor.node = f.descriptor.node := congrArg Face.node face
  have lifecycle : f'.lifecycle = f.lifecycle := congrArg Face.lifecycle face
  have ancestors := congrArg (List.map Face.node) above
  simp only [List.map_map] at ancestors
  replace ancestors : fs'.map (·.descriptor.node) = fs.map (·.descriptor.node) := ancestors
  simp only [viewOf, instances, node, lifecycle, ancestors]

theorem viewOf_congr {f f' : Frame σ ν} {fs fs' : List (Frame σ ν)} (c : Configuration) (abandoned : List Nat)
    (faces : (f' :: fs').map Frame.face = (f :: fs).map Frame.face) (registry : f'.registry = f.registry) :
    viewOf c abandoned (f' :: fs') = { viewOf c abandoned (f :: fs) with exception := f'.exception } := by
  rw [viewOf_faces c abandoned faces]
  simp only [viewOf, registry]

end Coupling

section
variable {id : UniqueId} {body : Invocation → Code σ ν Unit} {node : Node}

def Frame.rebody (id : UniqueId) (body : Invocation → Code σ ν Unit) (f : Frame σ ν) : Frame σ ν :=
  { f with descriptor := f.descriptor.rebody id body }

/-- A frame and the same frame, perhaps with the other body. -/
def Frame.Twin (id : UniqueId) (body : Invocation → Code σ ν Unit) (f f' : Frame σ ν) : Prop :=
  f' = f ∨ f' = f.rebody id body

theorem Frame.Twin.same {f f' : Frame σ ν} (twin : f.Twin id body f') :
    f'.face = f.face ∧ f'.registry = f.registry ∧ f'.exception = f.exception := by
  rcases twin with rfl | rfl
  · exact ⟨rfl, rfl, rfl⟩
  · refine ⟨?_, rfl, rfl⟩
    simp [Frame.face, Frame.rebody]

theorem Frame.Twin.change {f f' : Frame σ ν} (twin : f.Twin id body f') (store : Store σ ν → Store σ ν)
    (instances : Option (List Level) → Option (List Level)) (exception : Option TestError → Option TestError) :
    (f.change store instances exception).Twin id body (f'.change store instances exception) :=
  twin.imp (fun same => congrArg _ same) fun same => congrArg (Frame.change store instances exception) same

def Twins (id : UniqueId) (body : Invocation → Code σ ν Unit) : List (Frame σ ν) → List (Frame σ ν) → Prop :=
  List.Forall₂ (Frame.Twin id body)

theorem Twins.faces {fs fs' : List (Frame σ ν)} (twins : Twins id body fs fs') :
    fs'.map Frame.face = fs.map Frame.face := by
  induction twins with
  | nil => rfl
  | cons twin _ ih => rw [List.map_cons, List.map_cons, twin.same.1, ih]

theorem Twins.tail {fs fs' : List (Frame σ ν)} (twins : Twins id body fs fs') : Twins id body fs.tail fs'.tail :=
  forall₂_tail twins

theorem Twins.modify {fs fs' : List (Frame σ ν)} (twins : Twins id body fs fs') (level : Nat)
    (store : Store σ ν → Store σ ν) (instances : Option (List Level) → Option (List Level))
    (exception : Option TestError → Option TestError) :
    Twins id body (fs.modify level (Frame.change store instances exception))
      (fs'.modify level (Frame.change store instances exception)) :=
  forall₂_modify (fun _ _ twin => twin.change store instances exception) twins level

/-- The log of one run differs from that of the other in the end of one node at most. -/
def SameLog (node : Node) (t t' : List (Entry ν)) : Prop :=
  List.Forall₂ (Event.SameButEnd node) (eventsOf t) (eventsOf t')

theorem SameLog.append {t t' es es' : List (Entry ν)} (before : SameLog node t t') (added : SameLog node es es') :
    SameLog node (t ++ es) (t' ++ es') := by
  unfold SameLog eventsOf at *
  rw [List.filterMap_append, List.filterMap_append]
  exact List.rel_append before added

theorem SameLog.refl (t : List (Entry ν)) : SameLog node t t := List.forall₂_same.mpr fun e _ => .same e

end

section
variable (env : Environment σ ν) (leaf : Descriptor σ ν) (body : Invocation → Code σ ν Unit)

/-- The two runs, as long as they show the same errors: frames are twins. -/
def Coupling.twins : Coupling σ ν where
  env := env
  env' := env
  frames := Twins leaf.id body
  registry := Eq
  trace := SameLog leaf.node
  view := Eq
  covers _ := True
  hookOrder := rfl
  defaultLifecycle := rfl
  defaultTimeout := rfl
  deactivated := rfl
  faces := Twins.faces
  registries twins := by
    cases twins with
    | cons twin _ => exact twin.same.2.1.symm
  seen abandoned twins := by
    have faces := twins.faces
    cases twins with
    | nil => rfl
    | cons twin _ => rw [Coupling.viewOf_congr _ _ faces twin.same.2.1, twin.same.2.2]; rfl
  changed level store instances exception twins := twins.modify level store instances exception
  told es same := same.append (.refl es)
  resolves := trivial
  conditions := trivial
  applied capability same _ := ⟨same ▸ rfl, fun e _ => e.blind_eq.blindFor capability⟩

/-- Behind the body: the leaf may show different errors, and what is registered for it overlooks them. -/
inductive Outlived : List (Frame σ ν) → List (Frame σ ν) → Prop where
  | leaf {f g : Frame σ ν} {fs fs' : List (Frame σ ν)} (here : f.descriptor = leaf)
      (overlooks : f.registry.Overlooks leaf.node)
      (twin : f.Twin leaf.id body g) (above : Twins leaf.id body fs fs') (exception : Option TestError) :
      Outlived (f :: fs) ({ g with exception } :: fs')

def Coupling.outlived : Coupling σ ν where
  env := env
  env' := env
  frames := Outlived leaf body
  registry r r' := r = r' ∧ r.Overlooks leaf.node
  trace := SameLog leaf.node
  view := View.AtNode leaf.node
  covers capability :=
    capability ∈ [.afterTestExecution, .afterEach, .instancePreDestroy, .parameterResolver, .condition]
  hookOrder := rfl
  defaultLifecycle := rfl
  defaultTimeout := rfl
  deactivated := rfl
  faces related := by
    cases related with
    | leaf here overlooks twin above exception =>
      rw [List.map_cons, List.map_cons, above.faces]
      exact congrArg (· :: _) twin.same.1
  registries related := by
    cases related with
    | leaf here overlooks twin above exception => exact ⟨twin.same.2.1.symm, overlooks⟩
  seen abandoned related := by
    cases related with
    | leaf here overlooks twin above exception =>
      refine ⟨congrArg Descriptor.node here, ?_⟩
      refine Coupling.viewOf_congr _ _ ?_ twin.same.2.1
      rw [List.map_cons, List.map_cons, above.faces]
      exact congrArg (· :: _) twin.same.1
  changed level store instances exception related := by
    cases related with
    | @leaf f g fs fs' here overlooks twin above shown =>
      cases level with
      | zero =>
        exact Outlived.leaf (f := f.change store instances exception) here overlooks
          (twin.change store instances exception) above (exception shown)
      | succ level => exact .leaf here overlooks twin (above.modify level store instances exception) shown
  told es same := same.append (.refl es)
  resolves := by simp
  conditions := by simp
  applied capability := by
    rintro ⟨rfl, overlooks⟩ covered
    refine ⟨rfl, fun e member => ?_⟩
    have overlooks := overlooks e (Registry.mem_all_of_extensions member)
    simp only [List.mem_cons, List.not_mem_nil, or_false] at covered
    rcases covered with rfl | rfl | rfl | rfl | rfl
    · exact overlooks.afterTestExecution
    · exact overlooks.afterEach
    · exact overlooks.preDestroy
    · exact overlooks.resolver
    · exact overlooks.condition

end

/-- Code that only logs adds notes, and does nothing else. -/
theorem Program.OnlyLogs.goes {p : Program σ ν α} (logs : p.OnlyLogs) (h : Handlers σ ν) (env : Environment σ ν)
    (w : World σ ν) : ∃ outcome, ∃ notes : List ν, (p.runWith h).goes env w =
      (.ok outcome, { w with trace := w.trace ++ (notes.map Entry.note).toArray }) := by
  induction logs generalizing w with
  | done value => exact ⟨.ok value, [], by simp [runWith]; rfl⟩
  | panic payload => exact ⟨.error payload, [], by simp [runWith]; rfl⟩
  | note n _ ih =>
    obtain ⟨outcome, notes, goes⟩ := ih { w with trace := w.trace.push (.note n) }
    refine ⟨outcome, n :: notes, ?_⟩
    rw [runWith, Engine.goes_bind]
    show Engine.goes _ env { w with trace := w.trace.push (.note n) } = _
    rw [goes]
    simp
  | look _ ih =>
    obtain ⟨outcome, notes, goes⟩ := ih (viewOf env.configuration w.abandoned w.frames) w
    refine ⟨outcome, notes, ?_⟩
    rw [runWith, Engine.goes_bind, Engine.goes_view]
    exact goes

theorem SameLog.silent {node : Node} {es es' : List (Entry ν)} (quiet : eventsOf es = []) (quiet' : eventsOf es' = []) :
    SameLog node es es' := by
  unfold SameLog
  rw [quiet, quiet']
  exact .nil

theorem eventsOf_notes (notes : List ν) : eventsOf (notes.map Entry.note) = [] := by
  induction notes with
  | nil => rfl
  | cons n notes ih => simp [eventsOf, Entry.event?]

namespace Coupling
variable {env : Environment σ ν} {leaf : Descriptor σ ν} {body : Invocation → Code σ ν Unit} {sites : List (Site σ ν)}

theorem twins_total : (twins env leaf body).Total := ⟨fun _ _ => trivial, fun _ _ _ => Descriptor.blind_eq _⟩

theorem twins_nests : (twins env leaf body).Nests where
  toTotal := twins_total
  announces := Pairs.announces trivial
  root := rfl
  registered _ _ related _ := .of_eq (related ▸ rfl)
  enters _ _ related same _ := by
    cases same
    exact .cons (.inl rfl) related
  leaves related := by
    cases related with
    | cons _ above => exact above

abbrev Any (_ : α) (_ : β) : Prop := True

theorem records_any : Records Any := fun _ _ _ _ => trivial

namespace Pairs

theorem perform_logs {p q : Code σ ν Unit} (logs : Program.OnlyLogs p) (logs' : Program.OnlyLogs q) :
    (twins env leaf body).Pairs sites Any (Execution.perform p).run (Execution.perform q).run := by
  have runs : (twins env leaf body).Pairs sites Any (Execution.run p) (Execution.run q) := by
    intro w w' holds there
    obtain ⟨outcome, notes, goes⟩ := logs.goes (handlers Program.nestingLimit) env w
    obtain ⟨outcome', notes', goes'⟩ := logs'.goes (handlers Program.nestingLimit) env w'
    show EndAlike _ _ _ _ ((Execution.run p).goes env w) ((Execution.run q).goes env w')
    unfold Execution.run
    rw [goes, goes']
    refine ⟨.ok trivial, { holds with trace := ?_ }, there, ⟨_, Array.toList_append.symm⟩⟩
    rw [Array.toList_append, Array.toList_append]
    exact SameLog.append holds.trace (.silent (eventsOf_notes _) (eventsOf_notes _))
  refine Pairs.bind runs fun outcome outcome' _ => ?_
  split <;> split <;> exact .pure trivial

/-- A step with whatever end. -/
theorem step_any (s : Step) {code : Attempt σ ν α} {code' : Attempt σ ν β}
    (h : (twins env leaf body).Pairs sites Any code.run code'.run) :
    (twins env leaf body).Pairs sites Any (Engine.step s code).run (Engine.step s code').run := by
  intro w w' holds there
  have alike := h (w.mark s .began) (w'.mark s .began) (holds.mark s .began) there
  rw [Engine.goes_step, Engine.goes_step]
  refine ⟨alike.outcome, { alike.holds with trace := ?_ }, alike.sites,
    (grown_push _ _).trans (alike.grown.trans (grown_push _ _))⟩
  simp only [World.mark, Array.toList_push]
  exact SameLog.append alike.holds.trace (.silent rfl rfl)

theorem invokeTest_logs {m m' : Method σ ν Unit} (same : m'.signature = m.signature)
    (logs : ∀ inv, Program.OnlyLogs (m.body inv)) (logs' : ∀ inv, Program.OnlyLogs (m'.body inv))
    (untimed : env.settings.defaultTimeout = none) (inst : Option TestInstance) :
    (twins env leaf body).Pairs sites Any (Execution.invokeTest m none inst).run
      (Execution.invokeTest m' none inst).run := by
  have name : m'.name = m.name := congrArg Signature.name same
  have parameters : m'.parameters = m.parameters := congrArg Signature.parameters same
  have isStatic : m'.isStatic = m.isStatic := congrArg Signature.isStatic same
  have invokes (inst : Option TestInstance) : (twins env leaf body).Pairs sites Any (Execution.invoke m inst).run
      (Execution.invoke m' inst).run := by
    unfold Execution.invoke
    rw [ExceptT.run_bind, ExceptT.run_bind, name, parameters]
    refine (resolveParameters _ _).bind fun outcome _ agree => ?_
    cases agree.eq
    split
    · dsimp only
      split
      · exact perform_logs (logs _) (logs' _)
      · exact occupying _ (fun _ => trivial) (perform_logs (logs _) (logs' _))
    · exact .pure trivial
  refine settings.bind fun s s' ⟨here, there⟩ => ?_
  have none : (Option.none.orElse fun _ => s.defaultTimeout) = none := by rw [here]; exact untimed
  have none' : (Option.none.orElse fun _ => s'.defaultTimeout) = Option.none := by rw [there]; exact untimed
  simp only [none, none', name, isStatic]
  exact step_any _ (invokes _)

end Pairs

/-- The run is at the leaf, and what is registered there overlooks how it ends. -/
inductive AtLeaf (leaf : Descriptor σ ν) : List (Site σ ν) → Prop where
  | here {s : Site σ ν} {above : List (Site σ ν)} (isLeaf : s.descriptor = leaf)
      (overlooks : s.registry.Overlooks leaf.node) : AtLeaf leaf (s :: above)

theorem Holds.outlived {w w' : World σ ν} (holds : (twins env leaf body).Holds w w')
    (there : AtLeaf leaf (w.frames.map Frame.site)) : (Coupling.outlived env leaf body).Holds w w' := by
  refine ⟨?_, holds.trace, holds.user, holds.nextNumber, holds.abandoned, holds.inUse, holds.timeLeft⟩
  have twins : Twins leaf.id body w.frames w'.frames := holds.frames
  show Outlived leaf body w.frames w'.frames
  generalize w.frames = frames at there twins ⊢
  generalize w'.frames = frames' at twins ⊢
  cases twins with
  | nil => cases there
  | @cons f f' fs fs' twin above =>
    cases there with
    | here isLeaf overlooks => exact .leaf isLeaf overlooks twin above f'.exception

/-- Two runs that show the same errors come to show different ones at most. -/
def Diverge (env : Environment σ ν) (leaf : Descriptor σ ν) (body : Invocation → Code σ ν Unit)
    (sites : List (Site σ ν)) (A : α → β → Prop) (m : Engine σ ν α) (m' : Engine σ ν β) : Prop :=
  Leads env env (twins env leaf body).Holds (Coupling.outlived env leaf body).Holds sites A m m'

namespace Diverge
variable {m : Engine σ ν α} {m' : Engine σ ν β} {A : α → β → Prop} {γ δ : Type} {k : α → Engine σ ν γ}
  {k' : β → Engine σ ν δ} {B : γ → δ → Prop}

theorem of_twins (there : AtLeaf leaf sites) (h : (twins env leaf body).Pairs sites A m m') :
    Diverge env leaf body sites A m m' := fun w w' holds at_sites =>
  have alike := h w w' holds at_sites
  { alike with holds := alike.holds.outlived (alike.sites ▸ there) }

theorem of_outlived (there : AtLeaf leaf sites) (h : (Coupling.outlived env leaf body).Pairs sites A m m') :
    Diverge env leaf body sites A m m' := fun w w' holds at_sites =>
  h w w' (holds.outlived (at_sites ▸ there)) at_sites

theorem bind (first : Diverge env leaf body sites A m m')
    (second : ∀ a a', A a a' → (Coupling.outlived env leaf body).Pairs sites B (k a) (k' a')) :
    Diverge env leaf body sites B (m >>= k) (m' >>= k') :=
  Leads.bind first second fun _ _ holds _ => holds

theorem after (there : AtLeaf leaf sites) (first : (twins env leaf body).Pairs sites A m m')
    (second : ∀ a a', A a a' → Diverge env leaf body sites B (k a) (k' a')) :
    Diverge env leaf body sites B (m >>= k) (m' >>= k') :=
  Leads.bind first second fun _ _ holds still => holds.outlived (still ▸ there)

end Diverge

theorem showException_any (c c' : Collector) : (Coupling.outlived env leaf body).Pairs sites Any
    (Execution.showException c) (Execution.showException c') := by
  rintro ⟨frames, _⟩ ⟨frames', _⟩ holds there
  have related : Outlived leaf body frames frames' := holds.frames
  cases related with
  | @leaf f g fs fs' here overlooks twin above exception =>
    refine ⟨.ok trivial, { holds with frames := ?_ }, there, List.prefix_rfl⟩
    exact Outlived.leaf (f := f.change id id fun _ => c.primary) here overlooks
      (twin.change id id fun _ => c.primary) above c'.primary

/-- Callbacks behind the body, whatever has been gathered before them. -/
theorem collectCallbacks {capability : Capability} (covered : (Coupling.outlived env leaf body).covers capability)
    (c c' : Collector) : (Coupling.outlived env leaf body).Pairs sites Any
      (do Execution.collectAll c (← Execution.callbacks capability))
      (do Execution.collectAll c' (← Execution.callbacks capability)) := by
  refine (Pairs.callbacks covered).bind ?_
  rintro steps _ ⟨rfl, each⟩
  exact Pairs.collectAll records_any trivial each

variable {act act' : Option TestInstance → Attempt σ ν Unit}

theorem diverge_aroundBody (there : AtLeaf leaf sites) (c : Collector)
    (h : ∀ inst, (twins env leaf body).Pairs sites Any (act inst).run (act' inst).run) :
    Diverge env leaf body sites Any (Execution.aroundBody c act) (Execution.aroundBody c act') := by
  refine Diverge.after there (Pairs.callbacks trivial) ?_
  rintro steps _ ⟨rfl, each⟩
  refine Diverge.after there (Pairs.collectUntilError each) fun c _ same => ?_
  subst same
  have bodies : (twins env leaf body).Pairs sites Any
      (Execution.proceedIf c.isEmpty c fun c => do Execution.collect c (act (← Execution.innermost?)))
      (Execution.proceedIf c.isEmpty c fun c => do Execution.collect c (act' (← Execution.innermost?))) := by
    unfold Execution.proceedIf
    split
    · refine Pairs.innermost?.bind fun inst _ same => ?_
      subst same
      exact (h inst).bind fun _ _ _ => .pure trivial
    · exact .pure trivial
  refine Diverge.after there bodies fun c c' _ => Diverge.of_outlived there ?_
  exact (showException_any c c').bind fun _ _ _ => collectCallbacks (by simp [Coupling.outlived]) c c'

theorem diverge_leafSteps (there : AtLeaf leaf sites)
    (h : ∀ inst, (twins env leaf body).Pairs sites Any (act inst).run (act' inst).run) :
    Diverge env leaf body sites Any (Execution.leafSteps act) (Execution.leafSteps act') := by
  refine Diverge.after there (Pairs.callbacks trivial) ?_
  rintro steps _ ⟨rfl, each⟩
  refine Diverge.after there (Pairs.collectUntilError each) fun c _ same => ?_
  subst same
  have around : Diverge env leaf body sites Any (Execution.proceedIf c.isEmpty c fun c => Execution.aroundBody c act)
      (Execution.proceedIf c.isEmpty c fun c => Execution.aroundBody c act') := by
    unfold Execution.proceedIf
    split
    · exact diverge_aroundBody there c h
    · exact .of_twins there (.pure trivial)
  refine around.bind fun c c' _ => ?_
  exact (showException_any c c').bind fun _ _ _ => collectCallbacks (by simp [Coupling.outlived]) c c'

theorem diverge_leaf (there : AtLeaf leaf sites)
    (h : ∀ inst, (twins env leaf body).Pairs sites Any (act inst).run (act' inst).run) :
    Diverge env leaf body sites Any (Execution.leaf act) (Execution.leaf act') := by
  refine Diverge.after there (Pairs.instantiate twins_total) fun outcome _ agree => ?_
  cases agree.eq
  split
  · exact .of_twins there (.pure trivial)
  · refine (diverge_leafSteps there h).bind fun c c' _ => ?_
    exact (Pairs.collect records_any trivial (Pairs.destroy (by simp [Coupling.outlived]) _)).bind fun _ _ _ =>
      .pure trivial

theorem watchers_mute : (Coupling.outlived env leaf body).Pairs sites
    (SameAnd fun es => ∀ e ∈ es, ∀ w ∈ e.watcher, ∀ r r',
      (verdictOn r w).Alike (View.AtNode leaf.node) Eq (verdictOn r' w))
    (Engine.extensions .watcher) (Engine.extensions .watcher) := by
  refine Pairs.top?.bind fun f f' tops => .pure ?_
  have face := tops.face
  cases f with
  | none =>
    rw [Option.map_none, Option.map_eq_none_iff] at face
    rw [face]
    exact ⟨rfl, nofun⟩
  | some f =>
    obtain ⟨f', rfl, -⟩ := Option.map_eq_some_iff.mp face
    obtain ⟨same, overlooks⟩ := tops.registry f rfl f' rfl
    refine ⟨congrArg (Registry.extensions · .watcher) same, fun e member => ?_⟩
    replace member : e ∈ f.registry.extensions .watcher := member
    exact (overlooks e (Registry.mem_all_of_extensions member)).watcher

/-- Only the event that reports the end of the leaf differs. -/
theorem finish_any (r r' : ExecutionResult) : (Coupling.outlived env leaf body).Pairs sites Eq
    (Execution.finish leaf r) (Execution.finish (leaf.rebody leaf.id body) r') := by
  refine Pairs.closeStore.bind fun outcome _ agree => ?_
  cases agree.eq
  refine (Pairs.announce_of leaf.rebody_node (Pairs.notify_of (watchers_mute.mono ?_))).bind fun _ _ _ => ?_
  · exact fun es es' ⟨same, mute⟩ => ⟨same, fun e among w found => mute e among w found _ _⟩
  · rw [leaf.rebody_node]
    intro w w' holds there
    refine ⟨.ok rfl, { holds with trace := ?_ }, there, grown_push _ _⟩
    simp only [Engine.goes]
    show SameLog leaf.node (w.trace.push _).toList (w'.trace.push _).toList
    rw [Array.toList_push, Array.toList_push]
    exact SameLog.append holds.trace (.cons (.ended _ _) .nil)

variable {skips skips' : String → Engine σ ν Unit} {act act' : Engine σ ν ExecutionResult}

theorem diverge_admitted (there : AtLeaf leaf sites)
    (below : ∀ reason, (twins env leaf body).Pairs sites Eq (skips reason) (skips' reason))
    (acts : Diverge env leaf body sites Any act act') :
    Diverge env leaf body sites Eq (Execution.admitted leaf skips act)
      (Execution.admitted (leaf.rebody leaf.id body) skips' act') := by
  unfold Execution.admitted
  rw [leaf.rebody_node]
  refine Diverge.after there (Pairs.registration _).discard fun _ _ _ => ?_
  refine Diverge.after there Pairs.evaluateConditions fun verdict _ agree => ?_
  cases agree.eq
  split
  · exact .of_twins there (Pairs.reportSkipped twins_nests.announces leaf.rebody_node _ (below _))
  · exact Diverge.after there (Pairs.report _ _) fun _ _ _ => acts.bind fun _ _ _ => finish_any _ _
  · refine .of_twins there ((Pairs.report _ _).bind fun _ _ _ => (below _).bind fun _ _ _ => ?_)
    exact Pairs.finish twins_nests.announces leaf.rebody_node _

end Coupling
end TestEngine

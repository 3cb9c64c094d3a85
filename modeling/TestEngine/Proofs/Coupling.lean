import TestEngine.Proofs.Likeness

/-! Two runs side by side. A coupling says how the world of one run is related to the world of another; code of the
engine is paired with other code if from related worlds both end alike, and in related worlds again. -/
namespace TestEngine
variable {σ ν α β γ δ ε : Type}

open Execution

/-- The template a node is, with the time that its invocations have. -/
def Descriptor.template? (d : Descriptor σ ν) : Option (Template σ ν × Option Duration) :=
  match d.role with
  | .template t => some (t, d.timeout)
  | _ => none

/-- What related frames have in common: all but the code of methods, the registry, and the error that is shown. -/
structure Face (σ ν : Type) where
  node : Node
  testClass? : Option (TestClass σ ν)
  template? : Option (Template σ ν × Option Duration)
  lifecycle : Lifecycle
  held : List String
  store : Store σ ν
  instances : Option (List Level)

def Frame.face (f : Frame σ ν) : Face σ ν :=
  ⟨f.descriptor.node, f.descriptor.testClass?, f.descriptor.template?, f.lifecycle, f.held, f.store, f.instances⟩

def Frame.change (store : Store σ ν → Store σ ν) (instances : Option (List Level) → Option (List Level))
    (exception : Option TestError → Option TestError) (f : Frame σ ν) : Frame σ ν :=
  { f with store := store f.store, instances := instances f.instances, exception := exception f.exception }

/-- Two runs end alike: with values that `A` relates, in worlds that `Q` relates, and at the sites they have been at.
What has been told in the world `w` stays. -/
structure EndAlike (Q : World σ ν → World σ ν → Prop) (w : World σ ν) (sites : List (Site σ ν)) (A : α → β → Prop)
    (r : Except Halt α × World σ ν) (r' : Except Halt β × World σ ν) : Prop where
  outcome : Agree A r.1 r'.1
  holds : Q r.2 r'.2
  sites : r.2.frames.map Frame.site = sites
  grown : w.trace.toList <+: r.2.trace.toList

theorem grown_push (trace : Array (Entry ν)) (e : Entry ν) : trace.toList <+: (trace.push e).toList :=
  ⟨[e], Array.toList_push.symm⟩

/-- From worlds at these sites that `P` relates, the two runs end alike, in worlds that `Q` relates. -/
def Leads (env env' : Environment σ ν) (P Q : World σ ν → World σ ν → Prop)
    (sites : List (Site σ ν)) (A : α → β → Prop) (m : Engine σ ν α) (m' : Engine σ ν β) : Prop :=
  ∀ w w', P w w' → w.frames.map Frame.site = sites → EndAlike Q w sites A (m.goes env w) (m'.goes env' w')

namespace Leads
variable {env env' : Environment σ ν} {P Q R : World σ ν → World σ ν → Prop}
  {sites : List (Site σ ν)} {A : α → β → Prop} {B : γ → δ → Prop} {m : Engine σ ν α} {m' : Engine σ ν β}
  {k : α → Engine σ ν γ} {k' : β → Engine σ ν δ}

/-- One part after the other. What is broken off between them has to be related as at the end. -/
theorem bind (first : Leads env env' P Q sites A m m')
    (second : ∀ a a', A a a' → Leads env env' Q R sites B (k a) (k' a'))
    (broken : ∀ w w', Q w w' → w.frames.map Frame.site = sites → R w w') :
    Leads env env' P R sites B (m >>= k) (m' >>= k') := by
  intro w w' holds there
  have alike := first w w' holds there
  rw [Engine.goes_bind, Engine.goes_bind]
  rcases ended : m.goes env w with ⟨outcome, v⟩
  rcases ended' : m'.goes env' w' with ⟨outcome', v'⟩
  rw [ended, ended'] at alike
  obtain ⟨agree, holds, there, grown⟩ := alike
  cases agree with
  | ok related =>
    have alike := second _ _ related v v' holds there
    exact { alike with grown := grown.trans alike.grown }
  | error e => exact ⟨.error e, broken v v' holds there, there, grown⟩

theorem mono {B : α → β → Prop} (h : Leads env env' P Q sites A m m') (weaker : ∀ a a', A a a' → B a a') :
    Leads env env' P Q sites B m m' := fun w w' holds there =>
  have alike := h w w' holds there
  { alike with outcome := alike.outcome.mono weaker }

/-- Code at a node below. -/
theorem within {P' Q' : World σ ν → World σ ν → Prop} {f f' : Frame σ ν}
    (enter : ∀ w w', P w w' → w.frames.map Frame.site = sites →
      P' { w with frames := f :: w.frames } { w' with frames := f' :: w'.frames })
    (leave : ∀ w w', Q' w w' → w.frames.map Frame.site = f.site :: sites →
      Q { w with frames := w.frames.tail } { w' with frames := w'.frames.tail })
    (inside : Leads env env' P' Q' (f.site :: sites) A m m') :
    Leads env env' P Q sites A (Engine.within f m) (Engine.within f' m') := by
  intro w w' holds there
  have alike := inside _ _ (enter w w' holds there) (congrArg (f.site :: ·) there)
  rw [Engine.goes_within, Engine.goes_within]
  exact ⟨alike.outcome, leave _ _ alike.holds alike.sites, by rw [List.map_tail, alike.sites]; rfl, alike.grown⟩

end Leads

/-- How the world of a run in one environment is related to that of a run in another. -/
structure Coupling (σ ν : Type) where
  env : Environment σ ν
  env' : Environment σ ν
  frames : List (Frame σ ν) → List (Frame σ ν) → Prop
  registry : Registry (Extension σ ν) → Registry (Extension σ ν) → Prop
  trace : List (Entry ν) → List (Entry ν) → Prop
  view : View → View → Prop
  /-- The capabilities whose code tells no related views apart. -/
  covers : Capability → Prop
  hookOrder : env'.settings.hookOrder = env.settings.hookOrder
  defaultLifecycle : env'.settings.defaultLifecycle = env.settings.defaultLifecycle
  defaultTimeout : env'.settings.defaultTimeout = env.settings.defaultTimeout
  deactivated : env'.deactivated = env.deactivated
  faces : ∀ {fs fs'}, frames fs fs' → fs'.map Frame.face = fs.map Frame.face
  registries : ∀ {f fs f' fs'}, frames (f :: fs) (f' :: fs') → registry f.registry f'.registry
  seen : ∀ {fs fs'} abandoned, frames fs fs' →
    view (viewOf env.configuration abandoned fs) (viewOf env'.configuration abandoned fs')
  /-- The same is done to the stores, the chains and the errors of related frames. -/
  changed : ∀ {fs fs'} level store instances exception, frames fs fs' →
    frames (fs.modify level (Frame.change store instances exception))
      (fs'.modify level (Frame.change store instances exception))
  told : ∀ {t t'} es, trace t t' → trace (t ++ es) (t' ++ es)
  /-- Resolvers and conditions may be asked by any code. -/
  resolves : covers .parameterResolver
  conditions : covers .condition
  applied : ∀ {r r'} capability, registry r r' → covers capability →
    r'.extensions capability = r.extensions capability ∧
    ∀ e ∈ r.extensions capability, e.BlindFor view (Extension.Blind view) capability

theorem Agree.phase {A : α → β → Prop} {x : Except Halt (Except Fault α)} {y : Except Halt (Except Fault β)}
    (h : Agree (Agree A) x y) : Phase.ofOutcome y = Phase.ofOutcome x := by
  cases h with
  | ok agree => cases agree <;> rfl
  | error e => rfl

namespace Coupling
variable {b : Coupling σ ν}

structure Holds (b : Coupling σ ν) (w w' : World σ ν) : Prop where
  frames : b.frames w.frames w'.frames
  trace : b.trace w.trace.toList w'.trace.toList
  user : w'.user = w.user
  nextNumber : w'.nextNumber = w.nextNumber
  abandoned : w'.abandoned = w.abandoned
  inUse : w'.inUse = w.inUse
  timeLeft : w'.timeLeft = w.timeLeft

/-- From related worlds at these sites, the two runs end alike, and in related worlds again. -/
def Pairs (b : Coupling σ ν) (sites : List (Site σ ν)) (A : α → β → Prop) (m : Engine σ ν α) (m' : Engine σ ν β) :
    Prop :=
  Leads b.env b.env' b.Holds b.Holds sites A m m'

structure Tops (b : Coupling σ ν) (sites : List (Site σ ν)) (f f' : Option (Frame σ ν)) : Prop where
  face : f'.map Frame.face = f.map Frame.face
  site : f.map Frame.site = sites.head?
  registry : ∀ g ∈ f, ∀ g' ∈ f', b.registry g.registry g'.registry

theorem Tops.part {sites : List (Site σ ν)} {f f' : Option (Frame σ ν)} (tops : b.Tops sites f f')
    (part : Face σ ν → γ) : f'.map (fun g => part g.face) = f.map (fun g => part g.face) := by
  have same := congrArg (Option.map part) tops.face
  simp only [Option.map_map] at same
  exact same

namespace Holds
variable {w w' : World σ ν}

theorem tops (h : b.Holds w w') : b.Tops (w.frames.map Frame.site) w.frames.head? w'.frames.head? := by
  refine ⟨?_, by simp, ?_⟩
  · rw [← List.head?_map, b.faces h.frames, List.head?_map]
  · intro g first g' first'
    have related := h.frames
    cases frames : w.frames with
    | nil => simp [frames] at first
    | cons f fs =>
      cases frames' : w'.frames with
      | nil => simp [frames'] at first'
      | cons f' fs' =>
        simp only [frames, frames', List.head?_cons, Option.mem_some_iff] at first first'
        subst first first'
        rw [frames, frames'] at related
        exact b.registries related

theorem currentId (h : b.Holds w w') : w'.currentId = w.currentId :=
  congrArg (·.getD default) (h.tops.part fun face => face.node.id)

theorem instances (h : b.Holds w w') : w'.frames.findSome? (·.instances) = w.frames.findSome? (·.instances) := by
  have same := congrArg (List.findSome? Face.instances) (b.faces h.frames)
  simp only [List.findSome?_map] at same
  exact same

/-- The same entries are added to both traces. -/
theorem telling (h : b.Holds w w') (es : List (Entry ν)) {t t' : Array (Entry ν)}
    (added : t.toList = w.trace.toList ++ es) (added' : t'.toList = w'.trace.toList ++ es) :
    b.Holds { w with trace := t } { w' with trace := t' } :=
  { h with trace := by simpa only [added, added'] using b.told es h.trace }

theorem push (h : b.Holds w w') (e : Entry ν) :
    b.Holds { w with trace := w.trace.push e } { w' with trace := w'.trace.push e } :=
  h.telling [e] Array.toList_push Array.toList_push

theorem mark (h : b.Holds w w') (s : Step) (phase : Phase) : b.Holds (w.mark s phase) (w'.mark s phase) := by
  unfold World.mark
  rw [h.currentId]
  exact h.push _

end Holds
namespace Pairs
variable {sites : List (Site σ ν)} {m : Engine σ ν α} {m' : Engine σ ν β} {A : α → β → Prop}
  {k : α → Engine σ ν γ} {k' : β → Engine σ ν δ} {B : γ → δ → Prop}

theorem pure {a : α} {a' : β} (related : A a a') : b.Pairs sites A (pure a) (pure a') :=
  fun _ _ holds there => ⟨.ok related, holds, there, List.prefix_rfl⟩

theorem halt (h : Halt) : b.Pairs sites A (Engine.halt h) (Engine.halt h) :=
  fun _ _ holds there => ⟨.error h, holds, there, List.prefix_rfl⟩

theorem mono {B : α → β → Prop} (h : b.Pairs sites A m m') (weaker : ∀ a a', A a a' → B a a') :
    b.Pairs sites B m m' := Leads.mono h weaker

theorem bind (first : b.Pairs sites A m m') (second : ∀ a a', A a a' → b.Pairs sites B (k a) (k' a')) :
    b.Pairs sites B (m >>= k) (m' >>= k') := Leads.bind first second fun _ _ holds _ => holds

theorem map (h : b.Pairs sites A m m') {f : α → γ} {f' : β → δ} (related : ∀ a a', A a a' → B (f a) (f' a')) :
    b.Pairs sites B (f <$> m) (f' <$> m') := by
  rw [map_eq_pure_bind, map_eq_pure_bind]
  exact h.bind fun a a' r => .pure (related a a' r)

theorem discard (h : b.Pairs sites A m m') : b.Pairs sites Eq (discard m) (discard m') := h.map fun _ _ _ => rfl

theorem attempt_bind {m : Attempt σ ν α} {m' : Attempt σ ν β} {k : α → Attempt σ ν γ} {k' : β → Attempt σ ν δ}
    (first : b.Pairs sites (Agree A) m.run m'.run)
    (second : ∀ a a', A a a' → b.Pairs sites (Agree B) (k a).run (k' a').run) :
    b.Pairs sites (Agree B) (m >>= k).run (m' >>= k').run := by
  rw [ExceptT.run_bind, ExceptT.run_bind]
  refine first.bind fun outcome outcome' agree => ?_
  cases agree with
  | ok related => exact second _ _ related
  | error fault => exact .pure (.error fault)

theorem lift_bind {k : α → Attempt σ ν γ} {k' : β → Attempt σ ν δ} (first : b.Pairs sites A m m')
    (second : ∀ a a', A a a' → b.Pairs sites (Agree B) (k a).run (k' a').run) :
    b.Pairs sites (Agree B) (ExceptT.lift m >>= k).run (ExceptT.lift m' >>= k').run := by
  rw [ExceptT.run_bind_lift, ExceptT.run_bind_lift]
  exact first.bind second

theorem environment : b.Pairs sites (fun e e' => e = b.env ∧ e' = b.env') (read : Engine σ ν (Environment σ ν))
    (read : Engine σ ν (Environment σ ν)) := fun _ _ holds there => ⟨.ok ⟨rfl, rfl⟩, holds, there, List.prefix_rfl⟩

theorem settings : b.Pairs sites (fun s s' => s = b.env.settings ∧ s' = b.env'.settings) Engine.settings
    Engine.settings := fun _ _ holds there => ⟨.ok ⟨rfl, rfl⟩, holds, there, List.prefix_rfl⟩

theorem frames : b.Pairs sites (fun fs fs' => b.frames fs fs' ∧ fs.map Frame.site = sites) Engine.frames
    Engine.frames := fun _ _ holds there => ⟨.ok ⟨holds.frames, there⟩, holds, there, List.prefix_rfl⟩

theorem top? : b.Pairs sites (b.Tops sites) Engine.top? Engine.top? :=
  fun _ _ holds there => ⟨.ok (there ▸ holds.tops), holds, there, List.prefix_rfl⟩

/-- The extensions that apply are the same, and their code is blind. -/
theorem extensions {capability : Capability} (covered : b.covers capability) :
    b.Pairs sites (SameAnd fun es => ∀ e ∈ es, e.BlindFor b.view (Extension.Blind b.view) capability)
      (Engine.extensions capability) (Engine.extensions capability) := by
  refine top?.bind fun f f' tops => .pure ?_
  cases f with
  | none =>
    cases f' with
    | none => exact ⟨rfl, nofun⟩
    | some f' => exact absurd tops.face nofun
  | some f =>
    cases f' with
    | none => exact absurd tops.face nofun
    | some f' =>
      have ⟨same, blind⟩ := b.applied capability (tops.registry f rfl f' rfl) covered
      exact ⟨same.symm, blind⟩

theorem instances? : b.Pairs sites Eq Engine.instances? Engine.instances? :=
  fun _ _ holds there => ⟨.ok holds.instances.symm, holds, there, List.prefix_rfl⟩

theorem view : b.Pairs sites b.view Engine.view Engine.view := by
  intro w w' holds there
  rw [Engine.goes_view, Engine.goes_view, holds.abandoned]
  exact ⟨.ok (b.seen w.abandoned holds.frames), holds, there, List.prefix_rfl⟩

theorem append (e : Entry ν) : b.Pairs sites Eq (Engine.append e) (Engine.append e) :=
  fun _ _ holds there => ⟨.ok rfl, holds.push e, there, grown_push _ e⟩

theorem report (node : Node) (kind : EventKind) :
    b.Pairs sites Eq (Engine.report node kind) (Engine.report node kind) :=
  append _

theorem freshNumber : b.Pairs sites Eq Engine.freshNumber Engine.freshNumber :=
  fun _ _ holds there =>
    ⟨.ok holds.nextNumber.symm, { holds with nextNumber := congrArg (· + 1) holds.nextNumber }, there, List.prefix_rfl⟩

theorem act (action : Action σ ν α) : b.Pairs sites Eq (Engine.act action) (Engine.act action) := by
  intro w w' holds there
  rw [Engine.goes_act, Engine.goes_act, holds.user]
  refine ⟨.ok rfl, ?_, there, ⟨_, Array.toList_append.symm⟩⟩
  exact { holds.telling _ Array.toList_append Array.toList_append with user := rfl }

theorem modifies (change : World σ ν → World σ ν) (kept : ∀ {w w'}, b.Holds w w' → b.Holds (change w) (change w'))
    (stays : ∀ w, (change w).frames.map Frame.site = w.frames.map Frame.site)
    (quiet : ∀ w, (change w).trace = w.trace) :
    b.Pairs sites Eq (modify change : Engine σ ν PUnit) (modify change : Engine σ ν PUnit) :=
  fun w _ holds there => ⟨.ok rfl, kept holds, (stays w).trans there,
    (congrArg Array.toList (quiet w)).symm.subst List.prefix_rfl⟩

/-- A change that has no bearing on frames and trace. -/
theorem modifiesRest (change : World σ ν → World σ ν)
    (rest : ∀ w, (change w).frames = w.frames ∧ (change w).trace = w.trace)
    (kept : ∀ {w w'}, b.Holds w w' → b.Holds (change w) (change w')) :
    b.Pairs sites Eq (modify change : Engine σ ν PUnit) (modify change : Engine σ ν PUnit) :=
  modifies change kept (fun w => congrArg _ (rest w).1) fun w => (rest w).2

theorem changeAt (level : Nat) (store : Store σ ν → Store σ ν)
    (instances : Option (List Level) → Option (List Level)) (exception : Option TestError → Option TestError) :
    b.Pairs sites Eq
      (modify fun w => { w with frames := w.frames.modify level (Frame.change store instances exception) })
      (modify fun w => { w with frames := w.frames.modify level (Frame.change store instances exception) }) :=
  modifies _ (fun holds => { holds with frames := b.changed level store instances exception holds.frames })
    (fun w => Frame.map_modify w.frames level _ fun _ => rfl) fun _ => rfl

theorem changeTop (store : Store σ ν → Store σ ν) (instances : Option (List Level) → Option (List Level))
    (exception : Option TestError → Option TestError) :
    b.Pairs sites Eq (Engine.modifyTop (Frame.change store instances exception))
      (Engine.modifyTop (Frame.change store instances exception)) := by
  have same : (Engine.modifyTop (Frame.change store instances exception) : Engine σ ν Unit) =
      modify fun w => { w with frames := w.frames.modify 0 (Frame.change store instances exception) } := by
    unfold Engine.modifyTop
    congr 1
    funext w
    obtain ⟨frames, _⟩ := w
    cases frames <;> rfl
  rw [same]
  exact changeAt 0 store instances exception

/-- What a store answers is the same, and so is what becomes of it. -/
theorem askStore (levelsUp : Nat) (key : Store.Key) (request : Store.Request σ ν) :
    b.Pairs sites Eq (Engine.askStore levelsUp key request) (Engine.askStore levelsUp key request) := by
  refine frames.bind fun fs fs' ⟨related, _⟩ => ?_
  have stores : fs'.map (·.store) = fs.map (·.store) := by
    simpa [Function.comp_def, Frame.face] using congrArg (List.map Face.store) (b.faces related)
  have length : fs'.length = fs.length := by simpa using congrArg List.length stores
  dsimp only
  rw [length]
  have here := congrArg (·[min levelsUp (fs.length - 1)]?) stores
  simp only [List.getElem?_map] at here
  cases found : fs[min levelsUp (fs.length - 1)]? with
  | none =>
    rw [found, Option.map_none, Option.map_eq_none_iff] at here
    rw [here]
    exact .pure rfl
  | some f =>
    rw [found, Option.map_some, Option.map_eq_some_iff] at here
    obtain ⟨f', found', same⟩ := here
    rw [found']
    dsimp only
    rw [same, List.map_drop, List.map_drop, stores]
    refine (act _).bind fun outcome outcome' equal => ?_
    subst equal
    split
    · exact .pure rfl
    · rename_i reply store
      exact (changeAt _ (fun _ => store) id id).bind fun _ _ _ => .pure rfl

theorem sleep (time : Duration) : b.Pairs sites Eq (Engine.sleep time) (Engine.sleep time) := by
  have reads : b.Pairs sites (fun w w' => w'.timeLeft = w.timeLeft) (get : Engine σ ν (World σ ν))
      (get : Engine σ ν (World σ ν)) := fun _ _ holds there => ⟨.ok holds.timeLeft, holds, there, List.prefix_rfl⟩
  refine reads.bind fun w w' same => ?_
  rw [same]
  split
  · exact .pure rfl
  · split
    · exact halt _
    · exact modifiesRest (fun v => { v with timeLeft := _ }) (fun _ => ⟨rfl, rfl⟩) fun holds =>
        { holds with timeLeft := rfl }

theorem available (inst : TestInstance) : b.Pairs sites Eq (Engine.available inst) (Engine.available inst) := by
  have reads : b.Pairs sites (fun w w' => w'.inUse = w.inUse ∧ w'.abandoned = w.abandoned)
      (get : Engine σ ν (World σ ν)) (get : Engine σ ν (World σ ν)) :=
    fun _ _ holds there => ⟨.ok ⟨holds.inUse, holds.abandoned⟩, holds, there, List.prefix_rfl⟩
  refine reads.bind fun w w' ⟨inUse, abandoned⟩ => ?_
  rw [inUse, abandoned]
  split
  · exact .pure rfl
  · split
    · exact .pure rfl
    · exact halt _

theorem lockInnermost : b.Pairs sites Eq Engine.lockInnermost Engine.lockInnermost := by
  refine instances?.bind fun chain chain' same => ?_
  subst same
  split
  · exact .pure rfl
  · refine (available _).bind fun free free' same => ?_
    subst same
    exact .pure rfl

theorem abandon (inst : TestInstance) : b.Pairs sites Eq (Engine.abandon inst) (Engine.abandon inst) :=
  modifiesRest _ (fun _ => ⟨rfl, rfl⟩) fun holds => { holds with abandoned := congrArg (List.cons _) holds.abandoned }

theorem occupying (inst : TestInstance) {code : Attempt σ ν α} {code' : Attempt σ ν β}
    {A : Except Fault α → Except Fault β → Prop} (busy : ∀ e, A (.error e) (.error e))
    (h : b.Pairs sites A code.run code'.run) :
    b.Pairs sites A (Engine.occupying inst code).run (Engine.occupying inst code').run := by
  refine (available inst).bind fun free free' same => ?_
  subst same
  cases free with
  | true =>
    refine (modifiesRest (fun v => { v with inUse := inst.number :: v.inUse }) (fun _ => ⟨rfl, rfl⟩) fun holds =>
      { holds with inUse := congrArg (List.cons _) holds.inUse }).bind fun _ _ _ => ?_
    refine h.bind fun outcome outcome' related => ?_
    exact (modifiesRest (fun v => { v with inUse := v.inUse.erase inst.number }) (fun _ => ⟨rfl, rfl⟩) fun holds =>
      { holds with inUse := congrArg (·.erase inst.number) holds.inUse }).bind fun _ _ _ => .pure related
  | false => exact .pure (busy _)

/-- Both are late, or neither is. -/
theorem before (deadline : Duration) (label : String) {code code' : Attempt σ ν α} {B : α → α → Prop}
    (h : b.Pairs sites (Agree B) code.run code'.run) :
    b.Pairs sites (Agree B) (Engine.before deadline label code).run (Engine.before deadline label code').run := by
  intro w w' holds there
  have alike := h { w with timeLeft := some deadline } { w' with timeLeft := some deadline }
    { holds with timeLeft := rfl } there
  refine ⟨?_, { alike.holds with timeLeft := holds.timeLeft }, alike.sites, alike.grown⟩
  replace alike := alike.outcome
  show Agree _ (Engine.timed deadline label (code.run.goes b.env { w with timeLeft := some deadline }).1)
    (Engine.timed deadline label (code'.run.goes b.env' { w' with timeLeft := some deadline }).1)
  generalize (code.run.goes b.env { w with timeLeft := some deadline }).1 = outcome at alike ⊢
  generalize (code'.run.goes b.env' { w' with timeLeft := some deadline }).1 = outcome' at alike ⊢
  cases alike with
  | ok agree =>
    cases agree with
    | ok related => exact .ok (.ok related)
    | error fault => exact .ok (.error _)
  | error e => cases e <;> first | exact .error _ | exact .ok (.error _)

/-- A step is marked at the same node, and ends in the same way. -/
theorem step (s : Step) {code : Attempt σ ν α} {code' : Attempt σ ν β}
    (h : b.Pairs sites (Agree A) code.run code'.run) :
    b.Pairs sites (Agree A) (Engine.step s code).run (Engine.step s code').run := by
  intro w w' holds there
  have alike := h (w.mark s .began) (w'.mark s .began) (holds.mark s .began) there
  rw [Engine.goes_step, Engine.goes_step]
  rw [alike.outcome.phase]
  exact ⟨alike.outcome, alike.holds.mark _ _, alike.sites,
    (grown_push _ _).trans (alike.grown.trans (grown_push _ _))⟩

theorem raising (wrong : Option TestError) :
    b.Pairs sites (Agree Eq) (Engine.raising wrong : Attempt σ ν Unit).run (Engine.raising wrong).run := by
  cases wrong with
  | none => exact .pure (.ok rfl)
  | some e => exact .pure (.error _)

theorem check (wrong : Option TestError) :
    b.Pairs sites (Agree Eq) (Engine.check wrong : Attempt σ ν Unit).run (Engine.check wrong).run :=
  step .check (raising wrong)

end Pairs
end Coupling
end TestEngine

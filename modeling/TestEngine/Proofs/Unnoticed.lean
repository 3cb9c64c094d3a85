import TestEngine.Proofs.Onlookers

/-! Onlookers go unnoticed. A run is compared with the same run with more onlookers: as long as no other code looks at
the registry, listeners are told the same, and both runs end alike. -/
namespace TestEngine
variable {σ ν α β : Type}

open Execution

def View.ButRegistry (v v' : View) : Prop := v' = { v with registry := v'.registry }

/-- The code comes to its end, and only adds to the trace, nothing of which listeners are told. -/
def Engine.Unheard (m : Engine σ ν α) : Prop :=
  ∀ env w, ∃ a es, m.goes env w = (.ok a, { w with trace := w.trace ++ es.toArray }) ∧ eventsOf es = []

namespace Engine.Unheard

theorem of_onlyLogs {p : Program σ ν Unit} (logs : p.OnlyLogs) : (observe p).run.Unheard := by
  intro env w
  obtain ⟨outcome, notes, goes⟩ := logs.goes (handlers Program.nestingLimit) env w
  unfold observe
  rw [ExceptT.run_mk, Engine.goes_bind, run, goes]
  cases outcome <;> exact ⟨_, _, rfl, eventsOf_notes notes⟩

theorem step (s : Step) {code : Attempt σ ν α} (unheard : code.run.Unheard) : (Engine.step s code).run.Unheard := by
  intro env w
  obtain ⟨outcome, es, goes, silent⟩ := unheard env (w.mark s .began)
  rw [Engine.goes_step, goes]
  let mark (phase : Phase) : Entry ν := .step w.currentId s phase
  refine ⟨outcome, mark .began :: es ++ [mark (.ofOutcome (.ok outcome))], ?_, ?_⟩
  · simp [World.mark, World.currentId, mark]
  · unfold eventsOf at silent ⊢
    rw [List.filterMap_append, List.filterMap_cons_none rfl, silent]
    rfl

theorem collect (c : Collector) {code : Attempt σ ν Unit} (unheard : code.run.Unheard) :
    (Execution.collect c code).Unheard := by
  intro env w
  obtain ⟨outcome, es, goes, silent⟩ := unheard env w
  unfold Execution.collect
  rw [Engine.goes_bind, goes]
  exact ⟨_, es, rfl, silent⟩

end Engine.Unheard

/-- A frame, and the same with more onlookers. No other code that is registered or declared there looks at the
registry. -/
structure Frame.Attended (f f' : Frame σ ν) : Prop where
  face : f'.face = f.face
  exception : f'.exception = f.exception
  registry : f.registry.Attended f'.registry
  registered : f.registry.Blind View.ButRegistry
  declared : f.descriptor.Blind View.ButRegistry

theorem Frame.Attended.change {f f' : Frame σ ν} (h : f.Attended f') (store : Store σ ν → Store σ ν)
    (instances : Option (List Level) → Option (List Level)) (exception : Option TestError → Option TestError) :
    (f.change store instances exception).Attended (f'.change store instances exception) :=
  { h with
    face := congrArg (fun face : Face σ ν =>
      { face with store := store face.store, instances := instances face.instances }) h.face
    exception := congrArg exception h.exception }

namespace Coupling

theorem faces_attended {fs fs' : List (Frame σ ν)} (h : List.Forall₂ Frame.Attended fs fs') :
    fs'.map Frame.face = fs.map Frame.face := by
  induction h with
  | nil => rfl
  | cons here _ ih => rw [List.map_cons, List.map_cons, here.face, ih]

/-- A run, and the run with more onlookers among what is registered for the engine. -/
def attended (env : Environment σ ν) (registry : Registry (Extension σ ν)) : Coupling σ ν where
  env := env
  env' := { env with registry }
  frames := List.Forall₂ Frame.Attended
  registry r r' := r.Attended r' ∧ r.Blind View.ButRegistry
  trace t t' := eventsOf t' = eventsOf t
  view := View.ButRegistry
  covers capability := capability ≠ .watcher
  hookOrder := rfl
  defaultLifecycle := rfl
  defaultTimeout := rfl
  deactivated := rfl
  faces := faces_attended
  registries related := by
    cases related with
    | cons here _ => exact ⟨here.registry, here.registered⟩
  seen abandoned related := by
    have faces := faces_attended related
    cases related with
    | nil => rfl
    | cons here _ =>
      unfold View.ButRegistry
      rw [viewOf_faces _ _ faces, here.exception]
      rfl
  changed level store instances exception related :=
    forall₂_modify (fun _ _ h => h.change store instances exception) related level
  told es same := by
    unfold eventsOf at same ⊢
    rw [List.filterMap_append, List.filterMap_append, same]
  resolves := by decide
  conditions := by decide
  applied capability related other := ⟨related.1.extensions_eq other, fun e member =>
    (related.2 e (Registry.mem_all_of_extensions member)).blindFor capability⟩

variable {env : Environment σ ν} {registry : Registry (Extension σ ν)} {sites : List (Site σ ν)}

namespace Pairs
variable {A : α → β → Prop} {m : Engine σ ν α}

/-- The other run may do something first that is not heard of. -/
theorem after_unheard {γ : Type} {m' : Engine σ ν γ} {k : γ → Engine σ ν β} (unheard : m'.Unheard)
    (h : ∀ a, (attended env registry).Pairs sites A m (k a)) :
    (attended env registry).Pairs sites A m (m' >>= k) := by
  intro w w' holds there
  obtain ⟨a, es, goes, silent⟩ := unheard { env with registry } w'
  show EndAlike _ _ _ _ _ ((m' >>= k).goes { env with registry } w')
  rw [Engine.goes_bind, goes]
  refine h a w { w' with trace := w'.trace ++ es.toArray } { holds with trace := ?_ } there
  have same : eventsOf w'.trace.toList = eventsOf w.trace.toList := holds.trace
  show eventsOf (w'.trace ++ es.toArray).toList = _
  rw [Array.toList_append, eventsOf, List.filterMap_append, ← eventsOf, ← eventsOf, silent, List.append_nil, same]

/-- Where onlookers are registered, the others are as they were. -/
theorem watchers_attended : (attended env registry).Pairs sites
    (fun es es' => Interspersed Extension.Onlooker es es' ∧ ∀ e ∈ es, ∀ w ∈ e.watcher, w.Blind View.ButRegistry)
    (Engine.extensions .watcher) (Engine.extensions .watcher) := by
  refine top?.bind fun f f' tops => .pure ?_
  have face := tops.face
  cases f with
  | none =>
    rw [Option.map_none, Option.map_eq_none_iff] at face
    rw [face]
    exact ⟨.nil, nofun⟩
  | some f =>
    obtain ⟨f', rfl, -⟩ := Option.map_eq_some_iff.mp face
    obtain ⟨attended, blind⟩ := tops.registry f rfl f' rfl
    refine ⟨attended.watchers, fun e member => ?_⟩
    replace member : e ∈ f.registry.extensions .watcher := member
    exact (blind e (Registry.mem_all_of_extensions member)).blindFor .watcher

/-- Onlookers are called besides. What is gathered from any of them is dropped. -/
theorem collectAll_attended {tell : Watcher σ ν → Program σ ν Unit} {es es' : List (Extension σ ν)}
    (attended : Interspersed Extension.Onlooker es es') (logs : ∀ w : Watcher σ ν, w.OnlyLogs → (tell w).OnlyLogs)
    (blind : ∀ e ∈ es, ∀ w ∈ e.watcher, (tell w).Blind View.ButRegistry) (c c' : Collector) :
    let steps (es : List (Extension σ ν)) := es.filterMap fun e =>
      e.watcher.map fun w => Engine.step (.watcher e.name) (Execution.observe (tell w))
    (Coupling.attended env registry).Pairs sites Any (Execution.collectAll c (steps es))
      (Execution.collectAll c' (steps es')) := by
  intro steps
  induction attended generalizing c c' with
  | nil => exact .pure trivial
  | @kept e es es' _ ih =>
    have ⟨here, others⟩ := List.forall_mem_cons.mp blind
    cases watcher : e.watcher with
    | none => simpa [steps, watcher] using ih others c c'
    | some w =>
      have called : (Coupling.attended env registry).Pairs sites (Agree Eq)
          (Engine.step (.watcher e.name) (Execution.observe (tell w))).run
          (Engine.step (.watcher e.name) (Execution.observe (tell w))).run := step _ (observe (here w watcher))
      simpa [steps, watcher, Execution.collectAll] using
        (collect records_any trivial called).bind fun c c' _ => ih others c c'
  | @further y added es es' _ ih =>
    cases watcher : y.watcher with
    | none => simpa [steps, watcher] using ih blind c c'
    | some w =>
      have unheard : (Execution.collect c' (Engine.step (.watcher y.name) (Execution.observe (tell w)))).Unheard :=
        .collect c' (.step _ (.of_onlyLogs (logs w (added.logs w watcher))))
      simpa [steps, watcher, Execution.collectAll] using after_unheard unheard fun c' => ih blind c c'

theorem notify_attended {tell : Watcher σ ν → Program σ ν Unit}
    (logs : ∀ w : Watcher σ ν, w.OnlyLogs → (tell w).OnlyLogs)
    (blind : ∀ w : Watcher σ ν, w.Blind View.ButRegistry → (tell w).Blind View.ButRegistry) :
    (Coupling.attended env registry).Pairs sites Eq (Execution.notify tell) (Execution.notify tell) := by
  refine watchers_attended.bind ?_
  rintro es es' ⟨attended, known⟩
  exact (collectAll_attended attended logs (fun e member w found => blind w (known e member w found)) .empty
    .empty).discard

end Pairs

theorem announces_attended : (attended env registry).Announces where
  skipped reason := Pairs.notify_attended (fun _ logs => logs.disabled reason) fun _ blind => blind.disabled reason
  ended r := by
    cases r with
    | successful => exact Pairs.notify_attended (fun _ logs => logs.successful) fun _ blind => blind.successful
    | aborted e => exact Pairs.notify_attended (fun _ logs => logs.aborted e) fun _ blind => blind.aborted e
    | failed e => exact Pairs.notify_attended (fun _ logs => logs.failed e) fun _ blind => blind.failed e

section
variable {r r' : Registry (Extension σ ν)}

/-- What is declared is registered on both sides or on neither, and all of it is blind. -/
theorem registerAll_attended (related : (attended env registry).registry r r') (scope : Scope)
    {ds ds' : List (Declared σ ν)} (declared : Interspersed Declared.Onlooker ds ds')
    (blind : ∀ x ∈ ds, x.extension.Blind View.ButRegistry) :
    Agree (attended env registry).registry (registerAll (r.child scope) ds) (registerAll (r'.child scope) ds') := by
  obtain ⟨wider, known⟩ := related
  have agree := (wider.child scope).registerAll declared
  have below {own : Registry (Extension σ ν)} (registered : registerAll (r.child scope) ds = .ok own) :
      own.Blind View.ButRegistry := (known.child scope).registerAll blind registered
  generalize registerAll (r.child scope) ds = made at agree below ⊢
  generalize registerAll (r'.child scope) ds' = made' at agree ⊢
  cases agree with
  | ok wider => exact .ok ⟨wider, below rfl⟩
  | error e => exact .error e

theorem attended_nests (wider : env.registry.Attended registry) (blind : env.registry.Blind View.ButRegistry) :
    (attended env registry).Nests where
  covers _ other := other
  nodes related := by
    induction related with
    | nil => exact List.forall_mem_nil _
    | cons here _ ih => exact List.forall_mem_cons.mpr ⟨here.declared, ih⟩
  announces := announces_attended
  root := ⟨wider, blind⟩
  registered scope _ related blind := registerAll_attended related scope (.refl _) blind
  enters _ _ related own declared := .cons ⟨rfl, rfl, own.1, own.2, declared⟩ related
  leaves related := forall₂_tail related

variable {d : Descriptor σ ν} {extensions : List (Declared σ ν)}

theorem matches_attended (own : Interspersed Declared.Onlooker d.extensions extensions)
    (blind : d.Blind View.ButRegistry) : (attended env registry).Matches d { d with extensions } where
  node := rfl
  testClass? := rfl
  locks := rfl
  registers related := registerAll_attended related d.role.scope (own.append (.refl _)) (blind.own _)

theorem within_attended (blind : d.Blind View.ButRegistry) (related : (attended env registry).registry r r')
    (lifecycle : Lifecycle) (held : List String) {A : α → β → Prop} {m : Engine σ ν α} {m' : Engine σ ν β}
    (inside : (attended env registry).Pairs (⟨d, r, lifecycle, held⟩ :: sites) A m m') :
    (attended env registry).Pairs sites A (Engine.within { descriptor := d, registry := r, lifecycle, held } m)
      (Engine.within { descriptor := { d with extensions }, registry := r', lifecycle, held } m') := by
  refine Leads.within (fun w w' holds _ => ?_) (fun w w' holds there => ?_) inside
  · exact { holds with frames := .cons ⟨rfl, rfl, related.1, related.2, blind⟩ holds.frames }
  · exact { holds with frames := forall₂_tail holds.frames }

theorem executeProviders_extensions (t : Template σ ν) (d : Descriptor σ ν) (extensions : List (Declared σ ν))
    (ps : List (String × InvocationProvider σ ν (Extension σ ν))) (drawn : Nat) :
    executeProviders t { d with extensions } drawn ps = executeProviders t d drawn ps := by
  have draws : executeDraw t { d with extensions } = executeDraw t d := rfl
  induction ps generalizing drawn with
  | nil => rfl
  | cons p ps ih =>
    unfold executeProviders executeSource
    simp only [draws, ih]

/-- What a node does has nothing to do with the extensions that are declared for it. -/
theorem executeRole_extensions (d : Descriptor σ ν) (extensions : List (Declared σ ν)) (children : List (Child σ ν))
    (skips : String → Engine σ ν Unit) :
    executeRole { d with extensions } children skips = executeRole d children skips := by
  have template (t : Template σ ν) : executeTemplate t { d with extensions } = executeTemplate t d := by
    unfold executeTemplate expandTemplate
    simp only [executeProviders_extensions]
  have factory (f : Factory σ ν) : runFactory f { d with extensions } = runFactory f d := rfl
  unfold executeRole
  simp only [template, factory]

theorem skipAll_attended {ts ts' : List (TestTree σ ν)} {reason : String} {sites : List (Site σ ν)}
    (each : List.Forall₂ (fun t t' => (attended env registry).Pairs sites Eq (skip t reason) (skip t' reason)) ts ts') :
    (attended env registry).Pairs sites Eq (skipAll ts reason) (skipAll ts' reason) := by
  induction each with
  | nil => exact .pure rfl
  | cons here _ ih => exact here.bind fun _ _ _ => ih

/-- What is known of each tree, and of each of those with more onlookers. -/
theorem forall₂_attended {P : TestTree σ ν → TestTree σ ν → Prop} {cs cs' : List (TestTree σ ν)}
    (below : List.Forall₂ TestTree.Attended cs cs') (blind : ∀ x ∈ TestTree.preorderAll cs, x.Blind View.ButRegistry)
    (each : ∀ t ∈ cs, ∀ t', t.Attended t' → (∀ x ∈ t.preorder, x.Blind View.ButRegistry) → P t t') :
    List.Forall₂ P cs cs' := by
  have known : ∀ t ∈ cs, ∀ t', t.Attended t' → P t t' := fun t member t' attended =>
    each t member t' attended fun x among => blind x (TestTree.preorderAll_eq cs ▸ List.mem_flatMap_of_mem member among)
  exact ((List.forall₂_and_left _ _).mpr ⟨known, below⟩).imp fun _ _ ⟨all, attended⟩ => all _ attended

theorem skip_attended (wider : env.registry.Attended registry) (root : env.registry.Blind View.ButRegistry)
    (t : TestTree σ ν) : ∀ t', t.Attended t' → (∀ x ∈ t.preorder, x.Blind View.ButRegistry) → ∀ reason sites,
      (attended env registry).Pairs sites Eq (skip t reason) (skip t' reason) := by
  induction t using TestTree.induct with
  | node d cs ih =>
    intro t' h blind reason sites
    have ⟨here, others⟩ := List.forall_mem_cons.mp blind
    cases h with
    | node _ own below =>
      have nests := attended_nests wider root
      refine Pairs.visitSkipped_of nests (matches_attended own here) reason fun lifecycle related _ =>
        within_attended here related lifecycle [] (Pairs.reportSkipped nests.announces rfl reason ?_)
      exact skipAll_attended (forall₂_attended below others fun t member t' attended blind =>
        ih t member t' attended blind reason _)

theorem execute_attended (wider : env.registry.Attended registry) (root : env.registry.Blind View.ButRegistry)
    (t : TestTree σ ν) : ∀ t', t.Attended t' → (∀ x ∈ t.preorder, x.Blind View.ButRegistry) → ∀ sites,
      (attended env registry).Pairs sites Eq (Execution.execute t) (Execution.execute t') := by
  induction t using TestTree.induct with
  | node d cs ih =>
    intro t' h blind sites
    have nests := attended_nests wider root
    have ⟨here, others⟩ := List.forall_mem_cons.mp blind
    have locks := TestTree.Attended.locks _ _ h
    cases h with
    | @node _ extensions own _ cs' below =>
      have skips (reason : String) (sites : List (Site σ ν)) :
          (attended env registry).Pairs sites Eq (skipAll cs reason) (skipAll cs' reason) :=
        skipAll_attended (forall₂_attended below others fun t _ t' attended blind =>
          skip_attended wider root t t' attended blind reason sites)
      have children (sites : List (Site σ ν)) : (attended env registry).Pairs sites Eq
          (executeChildren (childrenOf cs)) (executeChildren (childrenOf cs')) := by
        refine Pairs.executeChildren rfl ?_
        rw [childrenOf_eq, childrenOf_eq, List.forall₂_map_left_iff, List.forall₂_map_right_iff]
        refine forall₂_attended below others fun t member t' attended blind => ⟨?_, ih t member t' attended blind sites⟩
        obtain ⟨_, same⟩ := attended.descriptor
        rw [same]
        exact ⟨rfl, rfl⟩
      have bodies (sites : List (Site σ ν)) : (attended env registry).Pairs sites Eq
          (executeRole d (childrenOf cs) (skipAll cs)) (executeRole d (childrenOf cs') (skipAll cs')) :=
        Pairs.executeRole nests here (children sites) fun reason => skips reason sites
      rw [Execution.execute, Execution.execute, executeRole_extensions d extensions]
      refine Gates.pairs (Gates.visit_of (fun _ => skipAll cs) (fun _ => skipAll cs') (fun _ => executeRole d _ _)
        (fun _ => executeRole d _ _) nests (matches_attended own here)
        (fun held => ?_) (fun lifecycle e related _ => .of_pairs ?_) fun lifecycle _ related _ => .of_pairs ?_)
      · rw [locks]
        exact locksToTake_congr rfl _ held
      · exact within_attended here related lifecycle _
          (Pairs.refused nests.announces rfl e fun reason => skips reason _)
      · exact within_attended here related lifecycle _ (Gates.pairs (Gates.admitted nests.announces rfl
          (fun reason => .of_pairs (skips reason _)) (.of_pairs (bodies _))))

end

end Coupling

/-- What a run shows: what listeners are told, why it is broken off if it is, and the user's state. -/
def Run.shown (run : Run σ ν) : List Event × Option Halt × σ := (run.events, run.halt, run.user)

theorem View.ButRegistry.path {v v' : View} (seen : View.ButRegistry v v') : v'.path = v.path := by
  rw [seen]
  rfl

/-- Onlookers that are added to the engine or to nodes go unnoticed, whether they panic or not: listeners are told the
same, and in the same order, and the run ends alike. No other code may look at the registry. -/
theorem onlookers_unnoticed {c : Configuration} {extensions extensions' : List (Declared σ ν)}
    {tree tree' : TestTree σ ν} {user : σ} (given : Interspersed Declared.Onlooker extensions extensions')
    (attended : tree.Attended tree') (blind : ∀ x ∈ extensions, x.extension.Blind View.ButRegistry)
    (blindTree : ∀ d ∈ tree.preorder, d.Blind View.ButRegistry) :
    (execute c extensions' tree' user).map Run.shown = (execute c extensions tree user).map Run.shown := by
  cases valid : tree.validate with
  | error e =>
    unfold execute
    rw [attended.validate, valid]
  | ok _ =>
    have agree := rootRegistry_attended given
    cases registered : rootRegistry extensions with
    | error e =>
      rw [registered] at agree
      unfold execute
      rw [attended.validate, valid, registered, agree.of_error]
    | ok registry =>
      rw [registered] at agree
      obtain ⟨registry', registered', wider⟩ := agree.of_ok
      obtain ⟨run, executed⟩ : ∃ run, execute c extensions tree user = .ok run := by
        unfold execute
        rw [valid, registered]
        exact ⟨_, rfl⟩
      have root := rootRegistry_blind (S := View.ButRegistry) View.ButRegistry.path blind registered
      have pairs : (Coupling.attended (environment c registry) registry').Pairs [] Eq (Execution.execute tree)
          (Execution.execute tree') := Coupling.execute_attended wider root tree tree' attended blindTree []
      obtain ⟨run', executed', events, halt, state⟩ := Coupling.execute_alike registered registered'
        (attended.validate.trans valid) rfl rfl (pairs _ _ ⟨.nil, rfl, rfl, rfl, rfl, rfl, rfl⟩ rfl) executed
      replace executed' : execute c extensions' tree' user = .ok run' := executed'
      replace events : run'.events = run.events := events
      rw [executed, executed']
      simp only [Except.map, Run.shown, events, halt, state]

namespace Blueprint

def bell : Declared Unit String :=
  let ring : Program Unit String Unit := .note "bell" (.panic .other)
  ⟨{ name := "bell", watcher := some
      { disabled := fun _ => ring, successful := ring, aborted := fun _ => ring, failed := fun _ => ring } }, .default⟩

theorem bell_onlooker : bell.Onlooker where
  extension :=
    { only := fun capability other => by cases capability <;> first | rfl | contradiction
      logs := by
        rintro _ ⟨⟩
        have rings : (.note "bell" (.panic .other) : Program Unit String Unit).OnlyLogs := .note _ (.panic _)
        exact ⟨fun _ => rings, rings, fun _ => rings, fun _ => rings⟩ }
  position := rfl

/-- A test that passes, one that fails, and one that is disabled. These extensions are declared for the engine and for
two of the tests. -/
def attended (own : List (Declared Unit String)) : Blueprint Unit String :=
  .node { Outline.engine "engine" with extensions := own } [
    .node { Outline.ofTest (noted "passes" (.ok ())) with extensions := own } [],
    .node (.ofTest (noted "fails" (.error (.failure "broken")))) [],
    .node { Outline.ofTest (noted "waits" (.ok ())) with extensions := ⟨.disabled "later", .default⟩ :: own } []]

theorem attended_bell : (attended []).build.Attended (attended [bell]).build :=
  have bells : Interspersed Declared.Onlooker [] [bell] := .further bell_onlooker .nil
  .node _ bells (.cons (.node _ bells .nil) (.cons (.node _ .nil .nil) (.cons (.node _ (.kept _ bells) .nil) .nil)))

theorem attended_blind : ∀ d ∈ (attended []).build.preorder, d.Blind View.ButRegistry := by
  have blind (name : String) (outcome : Except TestError Unit) : (noted name outcome).Blind View.ButRegistry :=
    fun _ => .note name (.done rfl)
  have disabled : (Extension.disabled "later" : Extension Unit String).Blind View.ButRegistry :=
    .of_blindFor fun capability => by
      cases capability <;> intro code member <;> cases member
      exact .look fun v v' same => .done rfl
  exact List.forall_mem_cons.mpr ⟨⟨trivial, nofun⟩, List.forall_mem_cons.mpr ⟨⟨blind _ _, nofun⟩,
    List.forall_mem_cons.mpr ⟨⟨blind _ _, nofun⟩, List.forall_mem_singleton.mpr
      ⟨blind _ _, List.forall_mem_singleton.mpr disabled⟩⟩⟩⟩

end Blueprint

open Blueprint in
theorem onlookers_unnoticed_sample : ∃ run run', execute .empty [] (attended []).build () = .ok run ∧
    execute .empty [bell] (attended [bell]).build () = .ok run' ∧ run'.events = run.events ∧
    run.events.length = 7 ∧ run.notes = ["passes", "fails"] ∧
    run'.notes = ["passes", "bell", "bell", "bell", "fails", "bell", "bell", "bell", "bell", "bell"] := by
  obtain ⟨run, executed, told⟩ := executed_of_any (r := execute .empty [] (attended []).build ())
    (p := fun run => run.events.length == 7 && run.notes == ["passes", "fails"]) (by decide +kernel)
  obtain ⟨run', executed', told'⟩ := executed_of_any (r := execute .empty [bell] (attended [bell]).build ())
    (p := fun run => run.notes ==
      ["passes", "bell", "bell", "bell", "fails", "bell", "bell", "bell", "bell", "bell"]) (by decide +kernel)
  rw [Bool.and_eq_true, beq_iff_eq, beq_iff_eq] at told
  have same : (execute .empty [bell] (attended [bell]).build ()).map Run.shown =
      (execute .empty [] (attended []).build ()).map Run.shown :=
    onlookers_unnoticed (.further bell_onlooker .nil) attended_bell nofun attended_blind
  rw [executed, executed'] at same
  have shown : run'.shown = run.shown := Except.ok.inj same
  exact ⟨run, run', executed, executed', congrArg Prod.fst shown, told.1, told.2, eq_of_beq told'⟩

end TestEngine

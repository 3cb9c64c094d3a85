import TestEngine.Proofs.Coupling

/-! Code of the user in two runs side by side. Where it tells no related views apart it makes the same requests in both,
and each of them is answered in the same way. -/
namespace TestEngine.Coupling
variable {σ ν α β : Type} {b : Coupling σ ν} {sites : List (Site σ ν)} {A : α → β → Prop}

open Execution

def Runs (b : Coupling σ ν) (run : Runner σ ν) : Prop :=
  ∀ {sites : List (Site σ ν)} {α β : Type} {A : α → β → Prop} {p : Program σ ν α} {q : Program σ ν β},
    p.Alike b.view A q → b.Pairs sites (Agree A) (run p) (run q)

/-- Requests to run more user code are answered in the same way. -/
structure Answered (b : Coupling σ ν) (h : Handlers σ ν) : Prop where
  resolve : ∀ {sites} executable ps, b.Pairs sites Eq (h.resolve executable ps) (h.resolve executable ps)
  evaluate : ∀ {sites} globs, b.Pairs sites Eq (h.evaluate globs) (h.evaluate globs)

theorem Answered.runs {h : Handlers σ ν} (answered : b.Answered h) : b.Runs (Program.runWith h) := by
  intro sites α β A p q alike
  induction alike with
  | done related => exact .pure (.ok related)
  | panic payload => exact .pure (.error payload)
  | note n _ ih => exact (Pairs.append _).bind fun _ _ _ => ih
  | state change _ ih =>
    have changes : b.Pairs sites Eq (modifyGet fun w => (w.user, { w with user := change w.user }) : Engine σ ν σ)
        (modifyGet fun w => (w.user, { w with user := change w.user })) := fun _ _ holds there =>
      ⟨.ok holds.user.symm, { holds with user := congrArg change holds.user }, there, List.prefix_rfl⟩
    exact changes.bind fun s s' same => same ▸ ih s
  | look _ ih => exact Pairs.view.bind ih
  | publish node values _ ih => exact (Pairs.report _ _).bind fun _ _ _ => ih
  | sleep time _ ih => exact (Pairs.sleep time).bind fun _ _ _ => ih
  | store levelsUp key request _ ih =>
    exact (Pairs.askStore levelsUp key request).bind fun reply reply' same => same ▸ ih reply
  | fresh _ ih => exact Pairs.freshNumber.bind fun n n' same => same ▸ ih n
  | lockInnermost _ ih => exact Pairs.lockInnermost.bind fun content content' same => same ▸ ih content
  | resolve executable parameters _ ih =>
    exact (answered.resolve executable parameters).bind fun reply reply' same => same ▸ ih reply
  | @evaluate c c' p q same _ ih =>
    dsimp only [Program.runWith]
    rw [← same]
    refine (answered.evaluate _).bind fun verdict verdict' equal => ?_
    subst equal
    exact ih _

namespace Runs
variable {run : Runner σ ν}

theorem call (runs : b.Runs run) {B : Except TestError α → Except TestError β → Prop} {code : Code σ ν α}
    {code' : Code σ ν β} (alike : Program.Alike b.view B code code') (outcomes : ∀ x y, B x y → Agree A x y) :
    b.Pairs sites (Agree A) (Execution.call run code).run (Execution.call run code').run := by
  refine (runs alike).bind fun outcome outcome' agree => ?_
  cases agree with
  | ok related =>
    cases outcomes _ _ related with
    | ok values => exact .pure (.ok values)
    | error e => exact .pure (.error _)
  | error payload => exact .pure (.error _)

theorem call_blind (runs : b.Runs run) {code : Code σ ν α} (blind : Program.Blind b.view code) :
    b.Pairs sites (Agree Eq) (Execution.call run code).run (Execution.call run code).run :=
  runs.call blind fun _ _ => .of_eq

end Runs

theorem Pairs.relabel (change : TestError → TestError) {code : Attempt σ ν α} {code' : Attempt σ ν β}
    (h : b.Pairs sites (Agree A) code.run code'.run) :
    b.Pairs sites (Agree A) (Execution.relabel change code).run (Execution.relabel change code').run := by
  refine h.bind fun outcome outcome' agree => ?_
  cases agree with
  | ok related => exact .pure (.ok related)
  | error fault => cases fault <;> exact .pure (.error _)

namespace Runs
variable {run : Runner σ ν} {es : List (Extension σ ν)} {X : Extension σ ν → Prop}

theorem supporting (runs : b.Runs run) (p : ParameterContext)
    (blind : ∀ e ∈ es, e.BlindFor b.view X .parameterResolver) :
    b.Pairs sites (Agree (SameAnd fun rs => ∀ r ∈ rs, r.2.Blind b.view)) (Execution.supporting run p es).run
      (Execution.supporting run p es).run := by
  induction es with
  | nil => exact .pure (.ok ⟨rfl, nofun⟩)
  | cons e es ih =>
    have ⟨here, others⟩ := List.forall_mem_cons.mp blind
    unfold Execution.supporting
    split
    · exact ih others
    · rename_i r found
      have blind : r.Blind b.view := here r found
      refine Pairs.attempt_bind (.relabel _ (.step _ (runs.call_blind (blind p).1))) fun answer answer' same => ?_
      subst same
      refine (ih others).attempt_bind fun rs rs' ⟨same, known⟩ => ?_
      subst same
      refine .pure (.ok ⟨rfl, ?_⟩)
      cases answer
      · exact known
      · exact List.forall_mem_cons.mpr ⟨blind, known⟩

theorem resolveParameter (runs : b.Runs run) (p : ParameterContext)
    (blind : ∀ e ∈ es, e.BlindFor b.view X .parameterResolver) :
    b.Pairs sites (Agree Eq) (Execution.resolveParameter run p es).run (Execution.resolveParameter run p es).run := by
  refine (runs.supporting p blind).attempt_bind ?_
  rintro rs _ ⟨rfl, known⟩
  split
  · exact .pure (.error _)
  · rename_i name r
    have blind := known (name, r) (by simp)
    refine Pairs.attempt_bind (.relabel _ (.step _ (runs.call_blind (blind p).2))) fun v v' same => ?_
    subst same
    split
    · exact .pure (.error _)
    · exact .pure (.ok rfl)
  · exact .pure (.error _)

theorem resolveEach (runs : b.Runs run) (executable : String) (ps : List Parameter)
    (blind : ∀ e ∈ es, e.BlindFor b.view X .parameterResolver) :
    b.Pairs sites (Agree Eq) (Execution.resolveEach run executable es ps).run
      (Execution.resolveEach run executable es ps).run := by
  induction ps with
  | nil => exact .pure (.ok rfl)
  | cons p ps ih =>
    refine (runs.resolveParameter _ blind).attempt_bind fun v v' same => ?_
    subst same
    refine ih.attempt_bind fun vs vs' same => ?_
    subst same
    exact .pure (.ok rfl)

theorem resolveWith (runs : b.Runs run) (executable : String) (ps : List Parameter) :
    b.Pairs sites (Agree Eq) (Execution.resolveWith run executable ps).run
      (Execution.resolveWith run executable ps).run := by
  refine (Pairs.extensions b.resolves).lift_bind fun es es' ⟨same, blind⟩ => ?_
  subst same
  exact runs.resolveEach executable ps blind

theorem askConditions (runs : b.Runs run) (deactivated : List (String → Bool))
    (blind : ∀ e ∈ es, e.BlindFor b.view X .condition) :
    b.Pairs sites Eq (Execution.askConditions run deactivated es) (Execution.askConditions run deactivated es) := by
  induction es with
  | nil => exact .pure rfl
  | cons e es ih =>
    have ⟨here, others⟩ := List.forall_mem_cons.mp blind
    unfold Execution.askConditions
    split
    · exact ih others
    · rename_i code found
      split
      · exact ih others
      · refine (Pairs.step _ (runs.call_blind (here code found))).bind fun outcome outcome' agree => ?_
        cases agree.eq
        split
        · exact .pure rfl
        · exact .pure rfl
        · exact ih others

theorem evaluateWith (runs : b.Runs run) (deactivated : List (String → Bool)) :
    b.Pairs sites Eq (Execution.evaluateWith run deactivated) (Execution.evaluateWith run deactivated) := by
  refine (Pairs.extensions b.conditions).bind fun es es' ⟨same, blind⟩ => ?_
  subst same
  exact runs.askConditions deactivated blind

end Runs

theorem answered (depth : Nat) : b.Answered (handlers depth) := by
  induction depth with
  | zero => exact ⟨fun _ _ => .halt _, fun _ => .halt _⟩
  | succ depth ih =>
    refine ⟨fun executable ps => ?_, fun globs => Runs.evaluateWith ih.runs globs⟩
    exact (Runs.resolveWith ih.runs executable ps).mono fun _ _ => Agree.eq

theorem runs_blind : b.Runs run := (answered _).runs

namespace Pairs

theorem perform {B : Except TestError α → Except TestError β → Prop} {code : Code σ ν α} {code' : Code σ ν β}
    (alike : Program.Alike b.view B code code') (outcomes : ∀ x y, B x y → Agree A x y) :
    b.Pairs sites (Agree A) (Execution.perform code).run (Execution.perform code').run :=
  Runs.call runs_blind alike outcomes

theorem perform_blind {code : Code σ ν α} (blind : Program.Blind b.view code) :
    b.Pairs sites (Agree Eq) (Execution.perform code).run (Execution.perform code).run :=
  Runs.call_blind runs_blind blind

theorem resolveParameters (executable : String) (ps : List Parameter) :
    b.Pairs sites (Agree Eq) (Execution.resolveParameters executable ps).run
      (Execution.resolveParameters executable ps).run :=
  Runs.resolveWith runs_blind executable ps

theorem evaluateConditions :
    b.Pairs sites (Agree Eq) (Execution.evaluateConditions : Attempt σ ν Verdict).run
      Execution.evaluateConditions.run := by
  refine step _ (environment.bind fun env env' ⟨here, there⟩ => ?_)
  rw [here, there, b.deactivated]
  refine (Runs.evaluateWith runs_blind _).bind fun verdict verdict' same => ?_
  subst same
  split
  · exact .pure (.ok rfl)
  · exact .pure (.error _)

/-- A method that is blind is invoked alike. -/
theorem invoke {B : Except TestError α → Except TestError α → Prop} {A : α → α → Prop} {m : Method σ ν α}
    (alike : ∀ inv, Program.Alike b.view B (m.body inv) (m.body inv)) (outcomes : ∀ x y, B x y → Agree A x y)
    (inst : Option TestInstance) :
    b.Pairs sites (Agree A) (Execution.invoke m inst).run (Execution.invoke m inst).run := by
  refine (resolveParameters _ _).attempt_bind fun arguments _ same => ?_
  subst same
  dsimp only
  split
  · exact perform (alike _) outcomes
  · exact occupying _ .error (perform (alike _) outcomes)

theorem invoke_blind {m : Method σ ν α} (blind : m.Blind b.view) (inst : Option TestInstance) :
    b.Pairs sites (Agree Eq) (Execution.invoke m inst).run (Execution.invoke m inst).run :=
  invoke blind (fun _ _ => .of_eq) inst

theorem innermost? : b.Pairs sites Eq Execution.innermost? Execution.innermost? := by
  refine instances?.bind fun chain _ same => ?_
  subst same
  exact .pure rfl

theorem invokeOnClass (capability : Capability) (className : String) {m : Method σ ν Unit} (blind : m.Blind b.view) :
    b.Pairs sites (Agree Eq) (Execution.invokeOnClass capability className m).run
      (Execution.invokeOnClass capability className m).run := by
  unfold Execution.invokeOnClass
  split
  · exact step _ (invoke_blind blind _)
  · refine instances?.lift_bind fun chain _ same => ?_
    subst same
    dsimp only
    split
    · exact step _ (.pure (.error _))
    · exact step _ (invoke_blind blind _)

end Pairs

def Steps (b : Coupling σ ν) (sites : List (Site σ ν)) (steps : List (Attempt σ ν Unit)) : Prop :=
  ∀ code ∈ steps, b.Pairs sites (Agree Eq) code.run code.run

/-- The collectors stay related as long as the same is recorded in both. -/
def Records (K : Collector → Collector → Prop) : Prop :=
  ∀ c c' outcome, K c c' → K (c.record outcome) (c'.record outcome)

theorem records_eq : Records Eq := fun _ _ _ same => same ▸ rfl

namespace Pairs
variable {K : Collector → Collector → Prop} {c c' : Collector} {steps : List (Attempt σ ν Unit)}

theorem collect (records : Records K) (related : K c c') {code code' : Attempt σ ν Unit}
    (h : b.Pairs sites (Agree Eq) code.run code'.run) :
    b.Pairs sites K (Execution.collect c code) (Execution.collect c' code') :=
  h.bind fun outcome _ agree => .pure (agree.eq ▸ records c c' outcome related)

/-- Steps taken in turn, each like the one in its place on the other side. -/
theorem collectBoth (records : Records K) {steps' : List (Attempt σ ν Unit)}
    (each : List.Forall₂ (fun code code' => b.Pairs sites (Agree Eq) code.run code'.run) steps steps')
    (related : K c c') : b.Pairs sites K (Execution.collectAll c steps) (Execution.collectAll c' steps') := by
  induction each generalizing c c' with
  | nil => exact .pure related
  | cons here _ ih => exact (collect records related here).bind fun _ _ related => ih related

theorem collectAll (records : Records K) (related : K c c') (each : b.Steps sites steps) :
    b.Pairs sites K (Execution.collectAll c steps) (Execution.collectAll c' steps) :=
  collectBoth records (List.forall₂_same.mpr each) related

theorem collectUntilError (each : b.Steps sites steps) :
    b.Pairs sites Eq (Execution.collectUntilError c steps) (Execution.collectUntilError c steps) := by
  induction steps generalizing c with
  | nil => exact .pure rfl
  | cons code rest ih =>
    have ⟨here, others⟩ := List.forall_mem_cons.mp each
    unfold Execution.collectUntilError
    split
    · refine (collect records_eq rfl here).bind fun c _ same => ?_
      subst same
      exact ih others
    · exact .pure rfl

theorem proceedIf {entered : Bool} {next : Collector → Engine σ ν Collector}
    (h : b.Pairs sites Eq (next c) (next c)) :
    b.Pairs sites Eq (Execution.proceedIf entered c next) (Execution.proceedIf entered c next) := by
  cases entered with
  | true => exact h
  | false => exact .pure rfl

theorem showException : b.Pairs sites Eq (Execution.showException c) (Execution.showException c) :=
  changeTop id id fun _ => c.primary

theorem callback {capability : Capability} {e : Extension σ ν} {X : Extension σ ν → Prop}
    (blind : e.BlindFor b.view X capability) {code : Attempt σ ν Unit}
    (found : Execution.callback capability e = some code) : b.Pairs sites (Agree Eq) code.run code.run := by
  obtain ⟨inner, does, rfl⟩ := Option.map_eq_some_iff.mp found
  refine step _ ?_
  have plain {o : Option (Code σ ν Unit)} (blind : ∀ code ∈ o, Program.Blind b.view code)
      (found : o.map Execution.perform = some inner) : b.Pairs sites (Agree Eq) inner.run inner.run := by
    obtain ⟨code, member, rfl⟩ := Option.map_eq_some_iff.mp found
    exact perform_blind (blind code member)
  have each {o : Option (EachCallback σ ν)} (blind : ∀ c ∈ o, c.Blind b.view)
      (found : o.map (eachCode capability) = some inner) : b.Pairs sites (Agree Eq) inner.run inner.run := by
    obtain ⟨c, member, rfl⟩ := Option.map_eq_some_iff.mp found
    have blind := blind c member
    cases c with
    | code own => exact perform_blind blind
    | hook className m => exact invokeOnClass _ _ blind
  unfold callbackCode at does
  split at does
  · exact plain blind does
  · exact plain blind does
  · exact each blind does
  · exact each blind does
  · exact plain blind does
  · exact plain blind does
  · contradiction

theorem callbacks {capability : Capability} (covered : b.covers capability) :
    b.Pairs sites (SameAnd (b.Steps sites)) (Execution.callbacks capability) (Execution.callbacks capability) := by
  refine (extensions covered).bind ?_
  rintro es _ ⟨rfl, blind⟩
  refine .pure ⟨rfl, fun code member => ?_⟩
  obtain ⟨e, among, found⟩ := List.mem_filterMap.mp member
  exact callback (blind e among) found

theorem farewells {es : List (Extension σ ν)} {X : Extension σ ν → Prop}
    (blind : ∀ e ∈ es, e.BlindFor b.view X .instancePreDestroy) (level : Level) :
    b.Steps sites (Execution.farewells level es) := by
  intro code member
  obtain ⟨e, among, found⟩ := List.mem_filterMap.mp member
  obtain ⟨callback, able, rfl⟩ := Option.map_eq_some_iff.mp found
  exact step _ (occupying _ .error (perform_blind (blind e among callback able _)))

theorem destroy (covered : b.covers .instancePreDestroy) (created : List Level) :
    b.Pairs sites (Agree Eq) (Execution.destroy created : Attempt σ ν Unit).run (Execution.destroy created).run := by
  refine (extensions covered).lift_bind ?_
  rintro es _ ⟨rfl, blind⟩
  have each : b.Steps sites (created.reverse.flatMap fun level => Execution.farewells level es) :=
    List.forall_mem_flatMap.mpr fun level _ => farewells blind level
  refine (collectAll records_eq rfl each).lift_bind fun c _ same => ?_
  subst same
  exact raising _

end Pairs

/-- All code that a node on the path may run tells no related views apart, that of watchers left aside. -/
structure Total (b : Coupling σ ν) : Prop where
  covers : ∀ capability, capability ≠ .watcher → b.covers capability
  nodes : ∀ {fs fs'}, b.frames fs fs' → ∀ f ∈ fs, f.descriptor.Blind b.view

theorem pending_congr {fs fs' : List (Frame σ ν)} (same : fs'.map Frame.face = fs.map Frame.face) :
    pending fs' = pending fs := by
  induction fs generalizing fs' with
  | nil =>
    rw [List.map_nil, List.map_eq_nil_iff] at same
    rw [same]
  | cons f fs ih =>
    obtain ⟨f', fs', rfl, face, faces⟩ := List.map_eq_cons_iff.mp same
    have instances : f'.instances = f.instances := congrArg Face.instances face
    have testClass? : f'.descriptor.testClass? = f.descriptor.testClass? := congrArg Face.testClass? face
    unfold pending
    rw [instances, ih faces, testClass?]

theorem pending_testClass {fs : List (Frame σ ν)} {c : TestClass σ ν} (member : c ∈ (pending fs).1) :
    ∃ f ∈ fs, f.descriptor.testClass? = some c := by
  induction fs with
  | nil => simp [pending] at member
  | cons f fs ih =>
    unfold pending at member
    split at member
    · simp at member
    · rcases List.mem_append.mp member with above | own
      · obtain ⟨g, among, found⟩ := ih above
        exact ⟨g, List.mem_cons_of_mem f among, found⟩
      · exact ⟨f, by simp, Option.mem_toList.mp own⟩

namespace Pairs
variable {K : Collector → Collector → Prop} {c c' : Collector} {steps : List (Attempt σ ν Unit)}

theorem postProcess (inst : TestInstance) {es : List (Extension σ ν)} {X : Extension σ ν → Prop}
    (blind : ∀ e ∈ es, e.BlindFor b.view X .instancePostProcessor) :
    b.Pairs sites (Agree Eq) (Execution.postProcess inst es).run (Execution.postProcess inst es).run := by
  induction es with
  | nil => exact .pure (.ok rfl)
  | cons e es ih =>
    have ⟨here, others⟩ := List.forall_mem_cons.mp blind
    unfold Execution.postProcess
    split
    · exact ih others
    · rename_i processor found
      exact (step _ (perform_blind (here processor found inst))).attempt_bind fun _ _ _ => ih others

theorem construct (total : b.Total) {c : TestClass σ ν} (blind : c.constructor.Blind b.view)
    (enclosing : Option TestInstance) : b.Pairs sites (Agree Eq) (Execution.construct c enclosing).run
      (Execution.construct c enclosing).run := by
  refine freshNumber.lift_bind fun number _ same => ?_
  subst same
  refine (step _ (invoke_blind blind _)).attempt_bind fun content _ same => ?_
  subst same
  refine (extensions (total.covers _ (by decide))).lift_bind ?_
  rintro es _ ⟨rfl, blind⟩
  exact (postProcess _ blind).attempt_bind fun _ _ _ => .pure (.ok rfl)

theorem constructAll (total : b.Total) (chain : List Level) {cs : List (TestClass σ ν)}
    (blind : ∀ c ∈ cs, c.constructor.Blind b.view) : b.Pairs sites (Agree Eq) (Execution.constructAll chain cs).run
      (Execution.constructAll chain cs).run := by
  induction cs generalizing chain with
  | nil => exact .pure (.ok rfl)
  | cons c cs ih =>
    have ⟨here, others⟩ := List.forall_mem_cons.mp blind
    refine (construct total here _).attempt_bind fun inst _ same => ?_
    subst same
    exact ih _ others

theorem instantiate (total : b.Total) :
    b.Pairs sites (Agree Eq) (Execution.instantiate : Attempt σ ν (List Level)).run Execution.instantiate.run := by
  refine step _ (frames.lift_bind fun fs fs' ⟨related, _⟩ => ?_)
  rw [pending_congr (b.faces related)]
  have blind : ∀ c ∈ (pending fs).1, c.constructor.Blind b.view := fun c member =>
    have ⟨f, among, found⟩ := pending_testClass member
    ((total.nodes related f among).testClass found).constructor
  generalize pending fs = found at blind ⊢
  obtain ⟨classes, inherited⟩ := found
  refine (constructAll total inherited blind).attempt_bind fun chain _ same => ?_
  subst same
  exact (changeTop id (fun _ => some chain) id).lift_bind fun _ _ _ => .pure (.ok rfl)

theorem aroundBody (total : b.Total) {body : Option TestInstance → Attempt σ ν Unit}
    (h : ∀ inst, b.Pairs sites (Agree Eq) (body inst).run (body inst).run) :
    b.Pairs sites Eq (Execution.aroundBody c body) (Execution.aroundBody c body) := by
  refine (callbacks (total.covers _ (by decide))).bind ?_
  rintro steps _ ⟨rfl, each⟩
  refine (collectUntilError each).bind fun c _ same => ?_
  subst same
  refine (proceedIf (innermost?.bind fun inst _ same => ?_)).bind fun c _ same => ?_
  · subst same
    exact collect records_eq rfl (h inst)
  subst same
  refine showException.bind fun _ _ _ => (callbacks (total.covers _ (by decide))).bind ?_
  rintro steps _ ⟨rfl, each⟩
  exact collectAll records_eq rfl each

theorem leafSteps (total : b.Total) {body : Option TestInstance → Attempt σ ν Unit}
    (h : ∀ inst, b.Pairs sites (Agree Eq) (body inst).run (body inst).run) :
    b.Pairs sites Eq (Execution.leafSteps body) (Execution.leafSteps body) := by
  refine (callbacks (total.covers _ (by decide))).bind ?_
  rintro steps _ ⟨rfl, each⟩
  refine (collectUntilError each).bind fun c _ same => ?_
  subst same
  refine (proceedIf (aroundBody total h)).bind fun c _ same => ?_
  subst same
  refine showException.bind fun _ _ _ => (callbacks (total.covers _ (by decide))).bind ?_
  rintro steps _ ⟨rfl, each⟩
  exact collectAll records_eq rfl each

theorem leaf (total : b.Total) {body : Option TestInstance → Attempt σ ν Unit}
    (h : ∀ inst, b.Pairs sites (Agree Eq) (body inst).run (body inst).run) :
    b.Pairs sites Eq (Execution.leaf body) (Execution.leaf body) := by
  refine (instantiate total).bind fun outcome _ agree => ?_
  cases agree.eq
  split
  · exact .pure rfl
  · refine (leafSteps total h).bind fun c _ same => ?_
    subst same
    refine (collect records_eq rfl (destroy (total.covers _ (by decide)) _)).bind fun c _ same => ?_
    subst same
    exact .pure rfl

theorem abandonAfter (outcome : Except Fault Unit) (inst : Option TestInstance) :
    b.Pairs sites Eq (Execution.abandonAfter outcome inst) (Execution.abandonAfter outcome inst) := by
  unfold Execution.abandonAfter
  split
  · split
    · exact abandon _
    · exact .pure rfl
  · exact .pure rfl

theorem invokeTest {m : Method σ ν Unit} (blind : m.Blind b.view) (limit : Option Duration)
    (inst : Option TestInstance) : b.Pairs sites (Agree Eq) (Execution.invokeTest m limit inst).run
      (Execution.invokeTest m limit inst).run := by
  refine settings.bind fun s s' ⟨here, there⟩ => ?_
  rw [here, there, b.defaultTimeout]
  dsimp only
  split
  · exact step _ (invoke_blind blind _)
  · refine top?.bind fun f f' tops => ?_
    have names : f'.map (·.descriptor.displayName) = f.map (·.descriptor.displayName) :=
      tops.part fun face => face.node.displayName
    rw [names]
    refine (step _ (before _ _ (invoke_blind blind _))).bind fun outcome _ agree => ?_
    cases agree.eq
    exact (abandonAfter _ _).bind fun _ _ _ => .pure (.of_eq rfl)

end Pairs
end TestEngine.Coupling

import TestEngine.Proofs.Chains
import TestEngine.Proofs.Identifiers

/-! What each part of the engine does with chains. A node gives its chain to the code below, and a tree makes
chains for its own nodes only. -/
namespace TestEngine
variable {σ ν α β : Type} {env : Environment σ ν} {tree : TestTree σ ν}

namespace Execution

section
variable {s : Seat σ ν} {above : List (Seat σ ν)} {ids : List UniqueId}

/-- Of callbacks only those around each test may be hooks. They are called where the node has a chain. -/
theorem keeps_callbacks (arrived : s.Arrived env tree above) {capability : Capability}
    (held : capability = .beforeEach ∨ capability = .afterEach → s.chain.isSome)
    {k : List (Attempt σ ν Unit) → Engine σ ν α}
    (h : ∀ steps, (∀ code ∈ steps, Keeps env tree (s :: above) [] code.run) →
      Keeps env tree (s :: above) ids (k steps)) : Keeps env tree (s :: above) ids (callbacks capability >>= k) := by
  unfold callbacks
  rw [bind_assoc]
  refine .extensions_bind ?_
  rw [pure_bind]
  refine h _ fun code member => ?_
  obtain ⟨e, among, found⟩ := List.mem_filterMap.mp member
  refine (Keeps.practice env tree (s :: above)).callback found fun className m same => ?_
  have around : capability = .beforeEach ∨ capability = .afterEach := by
    cases capability <;> first | exact .inl rfl | exact .inr rfl | simp [Extension.each?] at same
  exact Keeps.hook (h := ⟨s, above, capability, className, m⟩) ⟨arrived, .each e among same, fun _ => held around⟩

theorem works_leaf {body : Option TestInstance → Attempt σ ν Unit} (idle : ∀ inst, Idle (body inst).run)
    (arrived : s.Arrived env tree above) (free : s.chain = none) (leafy : s.descriptor.testClass? = none) :
    Works env tree s above [] (leaf body) := by
  have steps (chain : List Level) (arrived : (s.holding (some chain)).Arrived env tree above) :
      Keeps env tree (s.holding (some chain) :: above) [] (leafSteps body) :=
    (Keeps.practice env tree _).leafSteps (keeps_callbacks arrived fun _ => rfl)
      (fun _ => .of_idle (.modifyTop _ fun _ => rfl)) fun inst => .of_idle (idle inst)
  have works := Works.life arrived free (.inl leafy) (fun fault => return .ofError fault.toError)
    (fun _ => .pure _) steps
  rw [leafy] at works
  exact works

theorem keeps_childrenUnless (c : Collector) {seats : List (Seat σ ν)} {children : Engine σ ν Unit}
    {skip : String → Engine σ ν Unit} (executes : Keeps env tree seats ids children)
    (skips : ∀ reason, Idle (skip reason)) : Keeps env tree seats ids (childrenUnless c children skip) := by
  unfold childrenUnless
  split
  · exact executes
  · exact .of_idle (skips _)

/-- Hooks of the class are invoked that are static, or the class has a chain. -/
theorem keeps_classSteps {c : TestClass σ ν} (arrived : s.Arrived env tree above)
    (role : s.descriptor.role = .testClass c)
    (placed : ∀ m ∈ c.beforeAll ++ c.afterAll, m.isStatic = false → s.chain.isSome)
    {children : Engine σ ν Unit} {skip : String → Engine σ ν Unit}
    (executes : Keeps env tree (s :: above) ids children)
    (skips : ∀ reason, Idle (skip reason)) : Keeps env tree (s :: above) ids (classSteps c children skip) := by
  have parts : classSteps c children skip =
      (callbacks .beforeAll >>= collectUntilError .empty) >>= fun first =>
        (proceedIf first.isEmpty first fun before => do
          collectUntilError before (← hooksOf .beforeAll c c.beforeAll)) >>= fun before =>
        childrenUnless before children skip >>= fun _ =>
        (proceedIf first.isEmpty before fun before => do
          collectAll before (← hooksOf .afterAll c c.afterAll)) >>= fun after =>
        callbacks .afterAll >>= collectAll after := by
    simp only [classSteps, bind_assoc]
  have engine := Keeps.practice env tree (s :: above)
  have before (m : Method σ ν Unit) (among : m ∈ c.beforeAll) :
      Keeps env tree (s :: above) [] (invokeOnClass .beforeAll c.name m).run :=
    Keeps.hook (h := ⟨s, above, .beforeAll, c.name, m⟩)
      ⟨arrived, .all c role rfl (.inl rfl) among, placed m (List.mem_append_left _ among)⟩
  have after (m : Method σ ν Unit) (among : m ∈ c.afterAll) :
      Keeps env tree (s :: above) [] (invokeOnClass .afterAll c.name m).run :=
    Keeps.hook (h := ⟨s, above, .afterAll, c.name, m⟩)
      ⟨arrived, .all c role rfl (.inr rfl) among, placed m (List.mem_append_right _ among)⟩
  rw [parts]
  refine .nil_bind (keeps_callbacks arrived (by simp) fun steps each => engine.collectUntilError _ each)
    fun first => ?_
  refine .nil_bind (engine.proceedIf _ fun collected => ?_) fun collected => ?_
  · exact engine.hookSteps _ before fun steps each => engine.collectUntilError _ each
  refine (keeps_childrenUnless collected executes skips).bind_nil fun _ => ?_
  refine engine.bind (engine.proceedIf _ fun collected => ?_) fun collected => ?_
  · exact engine.hookSteps _ after fun steps each => engine.collectAll _ each
  · exact keeps_callbacks arrived (by simp) fun steps each => engine.collectAll _ each

/-- What is wrong is known where the check is made. -/
theorem check_bind (wrong : Option TestError) (k : Except Fault Unit → Engine σ ν β) :
    ((Engine.check wrong).run >>= k) =
      (Engine.check wrong).run >>= fun _ => k (wrong.elim (.ok ()) fun e => .error (.error e)) := by
  cases wrong <;> rfl

/-- Children are executed below a class with the chain it holds; where it has none, though it should, they are
skipped. -/
theorem works_executeClass {c : TestClass σ ν} (arrived : s.Arrived env tree above) (free : s.chain = none)
    (role : s.descriptor.role = .testClass c) {children : Engine σ ν Unit} {skip : String → Engine σ ν Unit}
    (executes : ∀ chain, Standing env tree (s.holding chain :: above) →
      Keeps env tree (s.holding chain :: above) ids children)
    (skips : ∀ reason, Idle (skip reason)) :
    Works env tree s above (s.descriptor.id :: ids) (executeClass c s.lifecycle children skip) := by
  let faulty (fault : Fault) : Engine σ ν ExecutionResult := do
    let failed := Collector.empty.record (.error fault)
    childrenUnless failed children skip
    return failed.toResult
  let whole (created : List Level) : Engine σ ν ExecutionResult := do
    let gathered ← classSteps c children skip
    return (← collect gathered (destroy created)).toResult
  have idle (fault : Fault) : Idle (faulty fault) := (skips _).bind fun _ => .pure _
  have steps (chain : Option (List Level)) (arrived : (s.holding chain).Arrived env tree above)
      (held : chain.isSome ↔ s.PerClass)
      (placed : ∀ m ∈ c.beforeAll ++ c.afterAll, m.isStatic = false → chain.isSome) :
      Keeps env tree (s.holding chain :: above) ids (classSteps c children skip) :=
    keeps_classSteps arrived role placed (executes chain (arrived.standing held)) skips
  -- Whether the hooks are misplaced or the chain cannot be made, the class goes on in the same way.
  unfold executeClass setUp
  rw [ExceptT.run_bind, bind_assoc, check_bind]
  refine .idle_bind ((Idle.regime σ ν).check _) fun _ => ?_
  cases wrong : misplacedHook? c s.lifecycle with
  | some e =>
    show Works env tree s above _ (faulty _)
    exact .of_idle free (idle _)
  | none =>
    dsimp only [Option.elim_none]
    cases lifecycle : s.lifecycle with
    | perMethod =>
      show Works env tree s above _ (whole [])
      have alone : ¬ s.PerClass := fun h => by simp [h.1] at lifecycle
      have static := (misplacedHook?_eq_none c).mp (lifecycle ▸ wrong)
      have keeps := steps s.chain arrived (iff_of_false (by simp [free]) alone) fun m among unbound =>
        absurd (static m among) (by simp [unbound])
      have nothing (gathered : Collector) : Keeps env tree (s :: above) []
          (do return (← collect gathered (destroy [])).toResult) :=
        .of_shows (shows_collect_destroy s above [] gathered)
      have all := keeps.bind nothing
      rw [List.append_nil] at all
      exact (Works.of_keeps free all).mono (List.sublist_cons_self _ _).subperm
    | perClass =>
      have single : s.PerClass := ⟨lifecycle, c, role⟩
      have works := Works.life arrived free (.inr single) faulty idle fun chain arrived =>
        steps (some chain) arrived (iff_of_true rfl single) fun _ _ _ => rfl
      have own : s.descriptor.testClass?.toList.map (fun _ => s.descriptor.id) = [s.descriptor.id] := by
        simp [Descriptor.testClass?, role]
      rw [own] at works
      exact works

theorem works_admitted (d : Descriptor σ ν) {skip : String → Engine σ ν Unit} {body : Engine σ ν ExecutionResult}
    (free : s.chain = none) (skips : ∀ reason, Idle (skip reason)) (works : Works env tree s above ids body) :
    Works env tree s above ids (admitted d skip body) := by
  refine .idle_bind ((Idle.regime σ ν).registration _).discard fun _ => ?_
  refine .idle_bind (Idle.regime σ ν).evaluateConditions fun verdict => ?_
  split
  · exact .of_idle free ((Idle.completes σ ν).reportSkipped d _ (skips _))
  · refine .idle_bind ((Idle.completes σ ν).report _ _) fun _ => ?_
    exact works.bind_idle fun r => (Idle.completes σ ν).finish d r
  · refine .of_idle free (((Idle.completes σ ν).report _ _).bind fun _ => ?_)
    exact (skips _).bind fun _ => (Idle.completes σ ν).finish d _

/-- The frame of a node that is entered: of the node above it depends on the lifecycle. -/
theorem keeps_within_frameFor {d : Descriptor σ ν} {cs : List (TestTree σ ν)} {seats : List (Seat σ ν)}
    (standing : Standing env tree seats) (joins : Joins tree d cs seats) {registry : Registry (Extension σ ν)}
    (registered : registry = registryBelow env (seats.map (·.toPlace)) d) (held : List String)
    {code : Engine σ ν Unit}
    (works : ∀ s : Seat σ ν, s.descriptor = d → s.below = cs → s.chain = none → s.Arrived env tree seats →
      Works env tree s seats ids code) :
    Keeps env tree seats ids (do Engine.within (← frameFor d registry held) code) := by
  unfold frameFor
  rw [bind_assoc]
  refine .settings_bind ?_
  rw [bind_assoc]
  refine .top_bind fun top _ => ?_
  rw [pure_bind]
  let s : Seat σ ν := {
    descriptor := d, registry, held, below := cs, chain := none
    lifecycle := lifecycleOf env.settings d top }
  have fits : s.Fits env.settings tree seats := by
    refine ⟨joins, fun c role => ?_, nofun⟩
    have role : d.role = .testClass c := role
    simp [s, lifecycleOf, Descriptor.testClass?, role]
  exact (works s rfl rfl rfl ⟨standing.path, fits, registered, standing.registered⟩).within rfl

theorem keeps_visit {d : Descriptor σ ν} {cs : List (TestTree σ ν)} {seats : List (Seat σ ν)}
    (standing : Standing env tree seats) (joins : Joins tree d cs seats) (subtree : List String)
    {skip : String → Engine σ ν Unit} {body : Engine σ ν ExecutionResult}
    (skips : ∀ reason, Idle (skip reason))
    (works : ∀ s : Seat σ ν, s.descriptor = d → s.below = cs → s.chain = none → s.Arrived env tree seats →
      Works env tree s seats ids body) :
    Keeps env tree seats ids (visit d subtree skip body) := by
  have engine := Idle.regime σ ν
  refine .idle_bind engine.top? fun top => ?_
  refine .idle_bind (engine.markTaken _ rfl rfl) fun _ => ?_
  refine .bind_idle ?_ fun _ => engine.markTaken _ rfl rfl
  refine .currentRegistry_bind (.settings_bind ?_)
  split
  · rename_i refusal
    refine keeps_within_frameFor standing joins (by rw [registryBelow, refusal]) _ fun s _ _ free _ => ?_
    exact .of_idle free (engine.refused _ skips)
  · rename_i admission
    refine keeps_within_frameFor standing joins (by rw [registryBelow, admission]) _
      fun s same below free arrived => ?_
    exact works_admitted d free skips (works s same below free arrived)

theorem keeps_executeInvocation (standing : Standing env tree (s :: above)) (t : Template σ ν)
    (template : Descriptor σ ν) (index : Nat) (invocation : TemplateInvocation (Extension σ ν)) :
    Keeps env tree (s :: above) [] (executeInvocation t template index invocation) := by
  refine .idle_bind ((Idle.completes σ ν).report _ _) fun _ => ?_
  refine keeps_visit standing (.made rfl) _ (fun _ => .pure _) fun s same _ free arrived => ?_
  refine works_leaf ((Idle.regime σ ν).invokeTest _ _) arrived free ?_
  rw [same]
  rfl

theorem keeps_executeDraw (standing : Standing env tree (s :: above)) (t : Template σ ν)
    (template : Descriptor σ ν) (index : Nat) (d : Draw σ ν (TemplateInvocation (Extension σ ν))) :
    Keeps env tree (s :: above) [] (executeDraw t template index d) := by
  refine .idle_bind ((Idle.regime σ ν).drawItem d) fun outcome => ?_
  split
  · exact .of_idle (.pure _)
  · dsimp only
    split
    · exact (keeps_executeInvocation standing t template index _).bind_idle fun _ => .pure _
    · exact .of_idle (.pure _)

theorem keeps_executeSource (standing : Standing env tree (s :: above)) (t : Template σ ν)
    (template : Descriptor σ ν) (drawn : Nat) (source : Source σ ν (TemplateInvocation (Extension σ ν))) :
    Keeps env tree (s :: above) [] (executeSource t template drawn source) := by
  have draw (i : Nat) (d : Draw σ ν (TemplateInvocation (Extension σ ν))) := keeps_executeDraw standing t template i d
  have practice := Keeps.practice env tree (s :: above)
  unfold executeSource
  split
  · exact practice.inTurn draw _ _
  · split
    · exact practice.upTo (fun i => draw _ _) _ _ _
    · exact practice.withoutEnd (practice.upTo (fun i => draw _ _) _ _ _)

theorem keeps_executeProviders (standing : Standing env tree (s :: above)) (t : Template σ ν)
    (template : Descriptor σ ν) (drawn : Nat)
    (ps : List (String × InvocationProvider σ ν (Extension σ ν))) :
    Keeps env tree (s :: above) [] (executeProviders t template drawn ps) := by
  induction ps generalizing drawn with
  | nil => exact .of_idle (.pure _)
  | cons p ps ih =>
    refine .idle_bind ((Idle.regime σ ν).obtain _ _) fun outcome => ?_
    split
    · exact .of_idle (.pure _)
    · rename_i stream
      have draws := keeps_executeSource standing t template drawn stream.source
      refine ((Keeps.practice env tree _).unlessClosed _ _ draws).bind_nil fun last => ?_
      refine .idle_bind ((Idle.regime σ ν).collect _ ((Idle.regime σ ν).closeStream _)) fun c => ?_
      split
      · exact ih _
      · exact .of_idle (.pure _)

/-- A provider that panics when it is asked for its support is marked so. -/
theorem supportPanics_step {m : Attempt σ ν α} {w w' : World σ ν} {extension : String} {payload : PanicPayload}
    (panicked : (Engine.step (.supports extension) m).run.goes env w = (.ok (.error (.panic payload)), w')) :
    SupportPanics payload w'.trace.toList := by
  rw [Engine.goes_step] at panicked
  rcases ran : m.run.goes env (w.mark (.supports extension) .began) with ⟨outcome, w1⟩
  rw [ran] at panicked
  obtain ⟨rfl, rfl⟩ := Prod.mk.inj panicked
  exact ⟨w1.currentId, extension, by simp [World.mark, Phase.ofOutcome]⟩

/-- Its panic breaks the run off. -/
theorem keeps_supports {seats : List (Seat σ ν)} {m : Attempt σ ν α} {k : Except Fault α → Engine σ ν β}
    (idle : Idle m.run) (extension : String)
    (breaks : ∀ payload, k (.error (.panic payload)) = Engine.halt (.panicked payload))
    (goesOn : ∀ outcome, (∀ payload, outcome ≠ .error (.panic payload)) → Keeps env tree seats ids (k outcome)) :
    Keeps env tree seats ids ((Engine.step (.supports extension) m).run >>= k) := by
  intro w there
  have ⟨idles, calm⟩ := idle.step (s := .supports extension) rfl env w
  rw [Engine.goes_bind]
  rcases asked : (Engine.step (.supports extension) m).run.goes env w with ⟨h | outcome, w'⟩ <;>
    rw [asked] at idles calm
  · exact ⟨idles.standsAt there, Yields.broken (.of_idle idles calm)⟩
  · by_cases panicked : ∃ payload, outcome = .error (.panic payload)
    · obtain ⟨payload, rfl⟩ := panicked
      dsimp only
      rw [breaks payload]
      refine ⟨idles.standsAt there, [], [], [], .of_tells idles.toTells, List.nil_subperm, ?_, nofun⟩
      intro raised same
      cases same
      exact supportPanics_step asked
    · obtain ⟨stands, yields⟩ := goesOn outcome (not_exists.mp panicked) w' (idles.standsAt there)
      have start : Yields env tree seats [] w ((.ok outcome : Except Halt (Except Fault α)), w') :=
        .of_idle idles calm
      exact ⟨stands, start.trans yields⟩

theorem keeps_supportingProviders {seats : List (Seat σ ν)} (es : List (Extension σ ν)) :
    Keeps env tree seats [] (supportingProviders es) := by
  induction es with
  | nil => exact .of_idle (.pure _)
  | cons e es ih =>
    unfold supportingProviders
    split
    · exact ih
    · rename_i p _
      refine keeps_supports ?_ e.name (fun _ => rfl) fun outcome calm => ?_
      · refine .bind ((Idle.regime σ ν).run p.supports) fun answer => ?_
        split <;> exact .pure _
      · split
        · exact absurd rfl (calm _)
        · exact ih
        · exact ih.bind_idle fun _ => .pure _

theorem keeps_executeTemplate (standing : Standing env tree (s :: above)) (t : Template σ ν)
    (d : Descriptor σ ν) : Keeps env tree (s :: above) [] (executeTemplate t d) := by
  have engine := Idle.regime σ ν
  refine .idle_bind (engine.extensions _) fun es => ?_
  refine (keeps_supportingProviders es).bind_nil fun providers => ?_
  refine .idle_bind (engine.collect _ (engine.check _)) fun c => ?_
  refine .bind_idle ((Keeps.practice env tree _).proceedIf c fun c => ?_) fun c => .pure _
  exact (keeps_executeProviders standing t d 0 providers).bind_idle fun last => engine.collect _ (engine.check _)

theorem keeps_executeEach {seats : List (Seat σ ν)} (trees : List (TestTree σ ν))
    (code : TestTree σ ν → Child σ ν) (executes : ∀ t ∈ trees, Keeps env tree seats t.ids (code t).2) :
    Keeps env tree seats (trees.flatMap TestTree.ids) (executeEach (trees.map code)) := by
  induction trees with
  | nil => exact .of_idle (.pure _)
  | cons t ts ih =>
    exact (executes t (by simp)).bind fun _ => ih fun t member => executes t (by simp [member])

theorem idsAll_eq_flatMap (ts : List (TestTree σ ν)) : TestTree.idsAll ts = ts.flatMap TestTree.ids := by
  induction ts with
  | nil => rfl
  | cons t ts ih => rw [TestTree.idsAll_cons, ih, List.flatMap_cons]

theorem keeps_executeChildren {seats : List (Seat σ ν)} (cs : List (TestTree σ ν))
    (executes : ∀ t ∈ cs, Keeps env tree seats t.ids (Execution.execute t)) :
    Keeps env tree seats (TestTree.idsAll cs) (executeChildren (childrenOf cs)) := by
  refine .top_bind fun top _ => ?_
  cases top with
  | none => exact .of_idle (.pure _)
  | some f =>
    refine .settings_bind ?_
    dsimp only
    rw [childrenOf_eq, List.partition_eq_filter_filter, List.filter_map, List.filter_map, List.map_map]
    have each (keep : TestTree σ ν → Bool) (code : TestTree σ ν → Child σ ν)
        (same : ∀ t ∈ cs, Keeps env tree seats t.ids (code t).2) :=
      keeps_executeEach (cs.filter keep) code fun t member => same t (List.mem_of_mem_filter member)
    refine ((each _ _ executes).bind fun _ => each _ _ fun t member => (executes t member).contain).mono ?_
    rw [← List.flatMap_append, idsAll_eq_flatMap]
    refine (List.Perm.flatMap_right _ ?_).subperm
    exact List.perm_append_comm.trans (List.filter_append_perm _ _)

theorem works_executeRole (arrived : s.Arrived env tree above) (free : s.chain = none)
    (executes : ∀ chain, Standing env tree (s.holding chain :: above) → ∀ t ∈ s.below,
      Keeps env tree (s.holding chain :: above) t.ids (Execution.execute t)) :
    Works env tree s above (s.descriptor.id :: TestTree.idsAll s.below)
      (executeRole s.descriptor (childrenOf s.below) (skipAll s.below)) := by
  have more {m : Engine σ ν ExecutionResult} (h : Works env tree s above [] m) :
      Works env tree s above (s.descriptor.id :: TestTree.idsAll s.below) m := h.mono List.nil_subperm
  have standing (other : ∀ c, s.descriptor.role ≠ .testClass c) : Standing env tree (s :: above) := by
    refine arrived.standing (iff_of_false (by simp [free]) ?_)
    rintro ⟨_, c, role⟩
    exact other c role
  have container (other : ∀ c, s.descriptor.role ≠ .testClass c) :
      Works env tree s above (s.descriptor.id :: TestTree.idsAll s.below) (do
        executeChildren (childrenOf s.below)
        return ExecutionResult.successful) := by
    refine (Works.of_keeps free ?_).mono (List.sublist_cons_self _ _).subperm
    exact (keeps_executeChildren s.below (executes s.chain (standing other))).bind_idle fun _ => .pure _
  have engine := Idle.regime σ ν
  unfold executeRole
  split
  · rename_i role
    exact container fun c same => by simp [role] at same
  · rename_i c role
    refine .top_bind fun f same => ?_
    have lifecycle : f.lifecycle = s.lifecycle := congrArg (·.1.lifecycle) same
    rw [Option.map_some, Option.getD_some, lifecycle]
    refine works_executeClass arrived free role (fun chain standing => ?_) (engine.skipAll s.below)
    exact keeps_executeChildren s.below (executes chain standing)
  · rename_i m role
    exact more (works_leaf (engine.invokeTest m _) arrived free (by simp [Descriptor.testClass?, role]))
  · rename_i t role
    have standing := standing fun c same => by simp [role] at same
    exact more (.of_keeps free (keeps_executeTemplate standing t _))
  · rename_i f role
    exact more (works_leaf (engine.runFactory f) arrived free (by simp [Descriptor.testClass?, role]))
  · rename_i role
    refine .idle_bind (.bind engine.frames fun fs => ?_) fun found => ?_
    · split <;> exact .pure _
    · split
      · exact more (works_leaf (engine.invokeTest _ _) arrived free (by simp [Descriptor.testClass?, role]))
      · exact container fun c same => by simp [role] at same

end

/-- Below a path on which nodes can be executed a tree makes chains for its own nodes only. -/
theorem keeps_execute (t : TestTree σ ν) : ∀ seats : List (Seat σ ν), Standing env tree seats →
    Joins tree t.descriptor t.children seats → Keeps env tree seats t.ids (Execution.execute t) := by
  -- A tree below a class is executed on a path with the chain of that class, so the path varies.
  induction t using TestTree.induct with
  | node d cs ih =>
    intro seats standing joins
    refine keeps_visit standing joins _ ((Idle.regime σ ν).skipAll cs) ?_
    rintro s rfl rfl free arrived
    refine works_executeRole arrived free fun chain standing t member => ih t member _ standing ?_
    cases t
    exact Or.inl member

end Execution
end TestEngine

import TestEngine.Proofs.Diverging
import TestEngine.Proofs.Executing
import TestEngine.Proofs.Identifiers

/-! How a test ends has no bearing on other nodes. Two runs are compared whose trees differ in the body of one test;
both bodies only log, and nothing that runs behind the body looks at how it has ended. -/
namespace TestEngine
variable {σ ν α β : Type}

open Execution

namespace Coupling
variable {env : Environment σ ν} {leaf : Descriptor σ ν} {body : Invocation → Code σ ν Unit} {sites : List (Site σ ν)}

theorem matches_rebody (d : Descriptor σ ν) : (twins env leaf body).Matches d (d.rebody leaf.id body) where
  node := d.rebody_node
  testClass? := d.rebody_testClass?
  locks := d.rebody_locks
  registers {r r'} same := by
    cases same
    exact .of_eq (registryFor_rebody env.settings r).symm

/-- The frames of a node in both runs are twins. -/
theorem within_twins (d : Descriptor σ ν) {r r' : Registry (Extension σ ν)} (same : r = r') (lifecycle : Lifecycle)
    (held : List String) {A : α → β → Prop} {m : Engine σ ν α} {m' : Engine σ ν β}
    (inside : (twins env leaf body).Pairs (⟨d, r, lifecycle, held⟩ :: sites) A m m') :
    (twins env leaf body).Pairs sites A (Engine.within { descriptor := d, registry := r, lifecycle, held } m)
      (Engine.within { descriptor := d.rebody leaf.id body, registry := r', lifecycle, held } m') := by
  cases same
  refine Leads.within (fun w w' holds _ => ?_) (fun w w' holds _ => ?_) inside
  · exact { holds with frames := .cons (.inr rfl) holds.frames }
  · exact { holds with frames := Twins.tail holds.frames }

mutual
theorem skip_rebody : (t : TestTree σ ν) → (reason : String) → ∀ sites, (twins env leaf body).Pairs sites Eq
    (Execution.skip t reason) (Execution.skip (t.rebody leaf.id body) reason)
  | .node d cs, reason, _ => Pairs.visitSkipped_of twins_nests (matches_rebody d) reason fun lifecycle same _ =>
      within_twins d same lifecycle []
        (Pairs.reportSkipped twins_nests.announces d.rebody_node reason (skipAll_rebody cs reason _))
theorem skipAll_rebody : (ts : List (TestTree σ ν)) → (reason : String) → ∀ sites, (twins env leaf body).Pairs sites Eq
    (Execution.skipAll ts reason) (Execution.skipAll (TestTree.rebodyAll leaf.id body ts) reason)
  | [], _, _ => .pure rfl
  | t :: ts, reason, sites => (skip_rebody t reason sites).bind fun _ _ _ => skipAll_rebody ts reason sites
end

theorem Outlived.above {fs fs' : List (Frame σ ν)} (related : Outlived leaf body fs fs') :
    Twins leaf.id body fs.tail fs'.tail := by
  cases related with
  | leaf here overlooks twin above exception => exact above

/-- Once the leaf is left, the runs show the same errors again. -/
theorem within_diverging {r r' : Registry (Extension σ ν)} (same : r = r') (lifecycle : Lifecycle) (held : List String)
    {A : α → β → Prop} {m : Engine σ ν α} {m' : Engine σ ν β}
    (inside : Diverge env leaf body (⟨leaf, r, lifecycle, held⟩ :: sites) A m m') :
    (twins env leaf body).Pairs sites A (Engine.within { descriptor := leaf, registry := r, lifecycle, held } m)
      (Engine.within { descriptor := leaf.rebody leaf.id body, registry := r', lifecycle, held } m') := by
  cases same
  refine Leads.within (fun w w' holds _ => ?_) (fun w w' holds _ => ?_) inside
  · exact { holds with frames := .cons (.inr rfl) holds.frames }
  · exact { holds with frames := Outlived.above holds.frames }

theorem locks_rebody (cs : List (TestTree σ ν)) (d : Descriptor σ ν) :
    ((TestTree.node d cs).rebody leaf.id body).preorder.flatMap (·.locks) =
      (TestTree.node d cs).preorder.flatMap (·.locks) := by
  simp only [TestTree.preorder_rebody, List.flatMap_map, Descriptor.rebody_locks]

/-- The leaf is a test without a deadline, and of its two bodies neither does more than log. -/
structure Exchanges (env : Environment σ ν) (leaf : Descriptor σ ν) (body : Invocation → Code σ ν Unit)
    (m : Method σ ν Unit) : Prop where
  test : leaf.role = .test m
  untimed : leaf.timeout = none
  byDefault : env.settings.defaultTimeout = none
  logs : ∀ inv, (m.body inv).OnlyLogs ∧ (body inv).OnlyLogs

variable {m : Method σ ν Unit}

/-- The test with either body, visited where all that is registered overlooks how it ends. -/
theorem visit_leaf (exchanges : Exchanges env leaf body m)
    (own : ∀ x ∈ leaf.own env.settings, x.extension.Overlooks leaf.node)
    (above : (registryAt env sites).Overlooks leaf.node) (cs : List (TestTree σ ν)) :
    (twins env leaf body).Pairs sites Eq (Execution.execute (.node leaf cs))
      (Execution.execute ((TestTree.node leaf cs).rebody leaf.id body)) := by
  rw [TestTree.rebody, Execution.execute, Execution.execute]
  refine Gates.pairs (Gates.visit_of (fun _ => skipAll cs) (fun _ => skipAll (TestTree.rebodyAll leaf.id body cs))
    (fun _ => executeRole leaf _ _) (fun _ => executeRole _ _ _) twins_nests (matches_rebody leaf) (fun held => ?_)
    (fun lifecycle e same _ => .of_pairs ?_) fun {r r'} lifecycle registered same _ => .of_pairs ?_)
  · rw [locksToTake_congr leaf.rebody_locks]
    exact congrArg (locksToTake leaf · held) (locks_rebody cs leaf)
  · exact within_twins leaf same lifecycle _
      (Pairs.refused twins_nests.announces leaf.rebody_node e fun reason => skipAll_rebody cs reason _)
  · refine within_diverging same lifecycle _ ?_
    have there (held : List String) : AtLeaf leaf (⟨leaf, r, lifecycle, held⟩ :: sites) :=
      .here rfl ((above.child leaf.role.scope).registerAll own registered)
    refine diverge_admitted (there _) (fun reason => skipAll_rebody cs reason _) ?_
    unfold Execution.executeRole
    rw [leaf.rebody_test exchanges.test, exchanges.test]
    dsimp only
    rw [exchanges.untimed]
    refine diverge_leaf (there _) fun inst => ?_
    refine Pairs.invokeTest_logs ?_ (fun inv => (exchanges.logs inv).1) (fun inv => (exchanges.logs inv).2)
      exchanges.byDefault inst
    rfl

mutual
/-- The tree with either body, executed where all that is registered on the way to the test overlooks how it ends. -/
theorem execute_rebody (exchanges : Exchanges env leaf body m) : (t : TestTree σ ν) →
    (∀ d ∈ t.preorder, d.id = leaf.id → d = leaf) →
    (∀ d ∈ t.lineage leaf.id, ∀ x ∈ d.own env.settings, x.extension.Overlooks leaf.node) →
    ∀ sites, (registryAt env sites).Overlooks leaf.node →
    (twins env leaf body).Pairs sites Eq (Execution.execute t) (Execution.execute (t.rebody leaf.id body))
  | .node d cs, only, own, sites, above => by
    by_cases among : ∃ x ∈ (TestTree.node d cs).preorder, x.id = leaf.id
    · have line : (TestTree.node d cs).lineage leaf.id = d :: TestTree.lineageAll leaf.id cs := by
        rw [TestTree.lineage, if_pos (by simpa using among)]
      rw [line] at own
      have ⟨here, below⟩ := List.forall_mem_cons.mp own
      have ⟨onlyHere, onlyBelow⟩ := List.forall_mem_cons.mp only
      by_cases isLeaf : d.id = leaf.id
      · obtain rfl := onlyHere isLeaf
        exact visit_leaf exchanges here above cs
      · have locks : ((TestTree.node d cs).rebody leaf.id body).preorder.flatMap (·.locks) = _ := locks_rebody cs d
        rw [TestTree.rebody, Descriptor.rebody_eq_self isLeaf] at locks ⊢
        rw [Execution.execute, Execution.execute]
        refine Pairs.visit twins_nests d.blind_eq (fun held => congrArg (locksToTake d · held) locks)
          (fun sites reason => skipAll_rebody cs reason sites) fun s registered => ?_
        have inside : (registryAt env (s :: sites)).Overlooks leaf.node :=
          (above.child d.role.scope).registerAll here registered
        exact Pairs.executeRole twins_nests d.blind_eq
          (Pairs.executeChildren rfl (childrenOf_rebody exchanges cs onlyBelow below _ inside))
          fun reason => skipAll_rebody cs reason _
    · rw [TestTree.rebody_eq_self _ (by simpa using among)]
      exact Pairs.execute twins_nests rfl _ (fun x _ => x.blind_eq) sites
theorem childrenOf_rebody (exchanges : Exchanges env leaf body m) : (ts : List (TestTree σ ν)) →
    (∀ d ∈ TestTree.preorderAll ts, d.id = leaf.id → d = leaf) →
    (∀ d ∈ TestTree.lineageAll leaf.id ts, ∀ x ∈ d.own env.settings, x.extension.Overlooks leaf.node) →
    ∀ sites, (registryAt env sites).Overlooks leaf.node → List.Forall₂ (fun c c' =>
      (c'.1.mode = c.1.mode ∧ c'.1.testClass? = c.1.testClass?) ∧ (twins env leaf body).Pairs sites Eq c.2 c'.2)
      (Execution.childrenOf ts) (Execution.childrenOf (TestTree.rebodyAll leaf.id body ts))
  | [], _, _, _, _ => .nil
  | t :: ts, only, own, sites, above => by
    have ⟨onlyFirst, onlyOthers⟩ := List.forall_mem_append.mp only
    have ⟨first, others⟩ := List.forall_mem_append.mp own
    refine .cons ⟨?_, execute_rebody exchanges t onlyFirst first sites above⟩
      (childrenOf_rebody exchanges ts onlyOthers others sites above)
    rw [TestTree.descriptor_rebody]
    exact ⟨Descriptor.rebody_mode, Descriptor.rebody_testClass?⟩
end

end Coupling

theorem View.AtNode.path {node : Node} {v v' : View} (seen : View.AtNode node v v') : v'.path = v.path := by
  rw [seen.2]
  rfl

theorem overlooks_testInfoResolver (node : Node) : (Extension.testInfoResolver : Extension σ ν).Overlooks node where
  afterTestExecution := nofun
  afterEach := nofun
  preDestroy := nofun
  watcher := nofun
  resolver := (blind_testInfoResolver (S := View.AtNode node) View.AtNode.path).blindFor .parameterResolver
  condition := nofun

theorem overlooks_testReporterResolver (node : Node) :
    (Extension.testReporterResolver : Extension σ ν).Overlooks node where
  afterTestExecution := nofun
  afterEach := nofun
  preDestroy := nofun
  watcher := nofun
  resolver := (blind_testReporterResolver (S := View.AtNode node) View.AtNode.path).blindFor .parameterResolver
  condition := nofun

theorem rootRegistry_overlooks {node : Node} {extensions : List (Declared σ ν)} {registry : Registry (Extension σ ν)}
    (overlook : ∀ x ∈ extensions, x.extension.Overlooks node) (registered : rootRegistry extensions = .ok registry) :
    registry.Overlooks node := by
  have none : (Registry.root : Registry (Extension σ ν)).Overlooks node := fun e among => nomatch among
  refine none.registerAll (List.forall_mem_append.mpr ⟨fun x among => ?_, overlook⟩) registered
  simp only [builtinExtensions, List.mem_cons, List.not_mem_nil, or_false] at among
  rcases among with rfl | rfl
  · exact overlooks_testInfoResolver node
  · exact overlooks_testReporterResolver node

/-- Another body for one test, where both only log, changes the result that is reported of this test at most: every
other event is the same, and in its place. The test and its class may have callbacks, hooks and watchers as long as
none of those around the test looks at how it has ended. -/
theorem leaf_isolated {c : Configuration} {extensions : List (Declared σ ν)} {tree : TestTree σ ν} {user : σ}
    {run : Run σ ν} {leaf : Descriptor σ ν} {m : Method σ ν Unit} {body : Invocation → Code σ ν Unit}
    (executed : execute c extensions tree user = .ok run) (among : leaf ∈ tree.preorder) (test : leaf.role = .test m)
    (untimed : leaf.timeout = none ∧ (Settings.ofConfiguration c).defaultTimeout = none)
    (logs : ∀ inv, (m.body inv).OnlyLogs ∧ (body inv).OnlyLogs)
    (overlooked : ∀ x ∈ extensions ++ (tree.lineage leaf.id).flatMap (Descriptor.own (.ofConfiguration c)),
      x.extension.Overlooks leaf.node) :
    ∃ run', execute c extensions (tree.rebody leaf.id body) user = .ok run' ∧
      List.Forall₂ (Event.SameButEnd leaf.node) run.events run'.events ∧
      run'.halt = run.halt ∧ run'.user = run.user := by
  obtain ⟨registry, registered, -⟩ := execute_ok executed
  have ⟨given, own⟩ := List.forall_mem_append.mp overlooked
  have only : ∀ d ∈ tree.preorder, d.id = leaf.id → d = leaf := fun d member same =>
    List.inj_on_of_nodup_map (TestTree.validate_nodup (execute_valid executed)) member among same
  have exchanges : Coupling.Exchanges (environment c registry) leaf body m := ⟨test, untimed.1, untimed.2, logs⟩
  have pairs := Coupling.execute_rebody exchanges tree only (List.forall_mem_flatMap.mp own) []
    (rootRegistry_overlooks given registered)
  refine Coupling.execute_alike registered registered ?_ rfl rfl (pairs _ _ ?_ rfl) executed
  · rw [TestTree.validate_rebody]
    exact execute_valid executed
  · exact ⟨.nil, .refl _, rfl, rfl, rfl, rfl, rfl⟩

namespace Blueprint

/-- A class of two tests with a hook after each. -/
def pair : Blueprint Unit String :=
  .node (.engine "pair") [
    .node (.ofClass {
        name := "Pair", constructor := noted "Pair" (.ok ⟨"Pair", "Pair#1"⟩)
        afterEach := [noted "clear" (.ok ())] }) [
      .node (.ofTest (noted "first" (.ok ()))) [],
      .node (.ofTest (noted "second" (.ok ()))) []]]

def first : Descriptor Unit String := pair.build.preorder.get ⟨2, by decide⟩

def breaks : Invocation → Code Unit String Unit := fun _ => .panic .other

/-- The nodes that have ended, and whether with success. -/
def results (run : Run Unit String) : List (String × Bool) :=
  run.events.filterMap fun e =>
    match e.kind with
    | .finished r => some (e.displayName, r = .successful)
    | _ => none

end Blueprint

open Blueprint in
theorem leaf_isolated_pair : ∃ run run',
    execute .empty [] pair.build () = .ok run ∧
    execute .empty [] (pair.build.rebody first.id breaks) () = .ok run' ∧
    List.Forall₂ (Event.SameButEnd first.node) run.events run'.events ∧
    results run = [("first", true), ("second", true), ("Pair", true), ("pair", true)] ∧
    results run' = [("first", false), ("second", true), ("Pair", true), ("pair", true)] := by
  obtain ⟨run, executed, told⟩ := executed_of_any (r := execute .empty [] pair.build ())
    (p := fun run => results run == [("first", true), ("second", true), ("Pair", true), ("pair", true)])
    (by decide +kernel)
  obtain ⟨run', executed', told'⟩ := executed_of_any
    (r := execute .empty [] (pair.build.rebody first.id breaks) ())
    (p := fun run => results run == [("first", false), ("second", true), ("Pair", true), ("pair", true)])
    (by decide +kernel)
  have clear : ∀ x ∈ ([] ++ (pair.build.lineage first.id).flatMap (Descriptor.own (.ofConfiguration .empty))),
      x.extension.Overlooks first.node := by
    intro x among
    have only : x ∈ [(⟨.afterEachHook "Pair" (noted "clear" (.ok ())), .default⟩ : Declared Unit String)] := among
    obtain rfl := List.mem_singleton.mp only
    exact ⟨nofun, by rintro _ ⟨⟩ inv; exact .note _ (.done rfl), nofun, nofun, nofun, nofun⟩
  have logs : ∀ inv, ((noted "first" (.ok ())).body inv).OnlyLogs ∧ (breaks inv).OnlyLogs :=
    fun _ => ⟨.note _ (.done _), .panic _⟩
  obtain ⟨_, again, same, -⟩ := leaf_isolated executed (List.get_mem _ _) rfl ⟨rfl, rfl⟩ logs clear
  cases executed'.symm.trans again
  exact ⟨run, run', executed, executed', same, eq_of_beq told, eq_of_beq told'⟩

end TestEngine

import TestEngine.Proofs.Leaves

/-! The life of a class, step by step: what sets it up, its children, and what comes behind them. -/
namespace TestEngine
variable {σ ν α : Type}

open Deed Execution

theorem Deed.UntilFailure.raised_length {plan : List (Step → Prop)} {ds : List (Deed σ ν)}
    (h : UntilFailure plan ds) : (raised ds).length ≤ 1 := by
  induction h with
  | nil => simp
  | failed _ => exact List.length_filterMap_le _ _
  | succeeded _ _ ih => simpa using ih

theorem Deed.When.raised_length {condition : Prop} {plan : List (Step → Prop)} {ds : List (Deed σ ν)}
    (h : When condition (UntilFailure plan) ds) : (raised ds).length ≤ 1 := by
  by_cases held : condition
  · exact (h.held held).raised_length
  · simp [h.failed held]

theorem misplacedHook?_eq_none (c : TestClass σ ν) :
    misplacedHook? c .perMethod = none ↔ ∀ m ∈ c.beforeAll ++ c.afterAll, m.isStatic := by
  simp [misplacedHook?, or_imp, forall_and]

section
variable {env : Environment σ ν} {place : Place σ ν} {path : List (Place σ ν)} {c : TestClass σ ν}

/-- What sets a class up, as far as the rest of its life depends on it. -/
structure SetUp (place : Place σ ν) (c : TestClass σ ν) (ds : List (Deed σ ν)) : Prop where
  steps : UntilFailure (setUpSteps place.lifecycle) ds
  placed : place.lifecycle = .perMethod → (raised ds = [] ↔ ∀ m ∈ c.beforeAll ++ c.afterAll, m.isStatic)

theorem conducts_setUp : Conducts timed env (place :: path) (setUp c place.lifecycle).run (fun outcome ds =>
    SetUp place c ds ∧ raised ds = (raisedBy outcome).toList ∧
      created ds = match outcome with
        | .ok made => made.map (·.inst.number)
        | .error _ => []) Calm := by
  unfold setUp
  refine (Performs.conducts (.raising .check rfl (misplacedHook? c place.lifecycle))).calm_attempt_bind ?_ ?_
  · rintro _ _ ⟨_, ⟨rfl, fine⟩, rfl⟩
    have fine : misplacedHook? c place.lifecycle = none := by simpa [faultOf] using fine.symm
    rw [fine]
    cases lifecycle : place.lifecycle with
    | perMethod =>
      refine .pure ⟨⟨?_, fun _ => ?_⟩, rfl, rfl⟩
      · rw [lifecycle]
        exact .succeeded rfl .nil
      · rw [lifecycle] at fine
        exact iff_of_true rfl ((misplacedHook?_eq_none c).mp fine)
    | perClass =>
      apply (Performs.conducts (performs_instantiate env _)).calm_mono
      rintro outcome _ ⟨_, ⟨inside, rfl, numbers⟩, rfl⟩
      cases outcome with
      | error fault =>
        refine ⟨⟨?_, fun other => ?_⟩, rfl, rfl⟩
        · rw [lifecycle]
          exact .succeeded rfl (.failed rfl)
        · rw [lifecycle] at other
          contradiction
      | ok made =>
        refine ⟨⟨?_, fun other => ?_⟩, rfl, ?_⟩
        · rw [lifecycle]
          exact .succeeded rfl (.succeeded rfl .nil)
        · rw [lifecycle] at other
          contradiction
        · simp [created, faultOf, numbers made rfl]
  · rintro fault _ ⟨_, ⟨rfl, wrong⟩, rfl⟩
    rw [← wrong]
    refine ⟨⟨?_, fun lifecycle => ?_⟩, rfl, rfl⟩
    · unfold setUpSteps
      cases place.lifecycle <;> exact .failed rfl
    · refine iff_of_false (List.cons_ne_nil _ _) fun static => ?_
      rw [lifecycle, (misplacedHook?_eq_none c).mpr static] at wrong
      contradiction

theorem plans_hooksOf (capability : Capability) (hooks : List (Method σ ν Unit)) :
    Plans timed env (place :: path) (hookSteps capability c (orderHooks (hookOrder env.settings c) hooks))
      (hooksOf capability c hooks) := by
  refine (Goes.settings (E := Calm)).bind ?_ fun _ _ e => e
  rintro _ _ ⟨rfl, rfl⟩
  refine .pure ⟨rfl, ?_⟩
  unfold hookSteps
  rw [List.forall₂_map_left_iff, List.forall₂_map_right_iff, List.forall₂_same]
  exact fun m _ => takesStep_invokeOnClass capability c.name m

theorem counted_hookSteps (capability : Capability) (hooks : List (Method σ ν Unit)) :
    ∀ P ∈ hookSteps capability c hooks, Counted P := by
  intro P member name
  obtain ⟨m, _, rfl⟩ := List.mem_map.mp member
  rintro ⟨inst, same⟩
  contradiction

theorem raised_childrenExecuted {settings : Settings} {ds : List (Deed σ ν)}
    (h : ChildrenExecuted settings place ds) : raised ds = [] := by
  obtain ⟨sameThread, concurrent, rfl, first, second⟩ := h
  rw [raised_append, raised_visits first, raised_visits second, List.append_nil]

variable {children : Engine σ ν Unit} {skip : String → Engine σ ν Unit}

/-- The children run, or are skipped because of the one error that was raised on the way in. -/
theorem conducts_childrenUnless {before : Collector} {es : List TestError}
    (gathers : Collects before.primary es)
    (executes : ExecutesBelow timed env path place children)
    (skips : SkipsBelow timed env path place skip) :
    Conducts timed env (place :: path) (childrenUnless before children skip)
      (fun _ ds => (es = [] → ChildrenExecuted env.settings place ds) ∧
        (∀ e, es = [e] → PassedOver ("Container setup failed: " ++ e.message) place.below ds) ∧
        raised ds = [])
      (fun h ds => ∀ payload, h = .panicked payload → es = [] ∧ ChildrenTorn payload place.below ds) := by
  unfold childrenUnless
  split
  · rename_i none
    have empty : es = [] := gathers.none_iff.mp none
    refine executes.mono ?_ fun _ _ torn payload panicked => ⟨empty, torn payload panicked⟩
    intro _ ds executed
    exact ⟨fun _ => executed, fun e single => by simp [empty] at single, raised_childrenExecuted executed⟩
  · rename_i e some
    refine (skips _).mono ?_ fun _ _ passing => passing.1.no_panic
    intro _ ds passedOver
    refine ⟨fun empty => ?_, fun x single => ?_, raised_visits passedOver⟩
    · rw [gathers.none_iff.mpr empty] at some
      contradiction
    · rw [gathers.alone x single] at some
      cases some
      exact passedOver

/-- From the set-up on, the steps of a class are in order up to where its instances are destroyed. -/
theorem conducts_classSteps {setUp : List (Deed σ ν)} (isSetUp : SetUp place c setUp)
    (fine : raised setUp = [])
    (executes : ExecutesBelow timed env path place children)
    (skips : SkipsBelow timed env path place skip) :
    Conducts timed env (place :: path) (classSteps c children skip)
      (fun c' ds => Gathered .empty c' ds ∧ ∀ farewell,
        InTurn (place.registry.farewellSteps (created setUp)) farewell → ∃ p : ClassParts σ ν,
          setUp ++ ds ++ farewell = p.deeds ∧ ClassOrder env.settings place c p)
      (fun h ds => ∀ payload, h = .panicked payload → ∃ p : ClassParts σ ν,
        setUp ++ ds = p.deeds ∧ ClassTorn env.settings place c payload p) := by
  unfold classSteps
  rw [← bind_assoc]
  refine ((plans_callbacks (by decide)).collectUntilError (counted_callbackSteps _ _) .empty).bind ?_
    fun _ _ calm => calm.no_panic
  rintro c1 beforeAll ⟨gathered1, when1⟩
  have befores := when1.held rfl
  have empty1 : c1.isEmpty = true ↔ raised beforeAll = [] := gathered1.whole.isEmpty_iff
  dsimp only
  have hooked (none : raised beforeAll = []) : Conducts timed env (place :: path)
      (do collectUntilError c1 (← hooksOf .beforeAll c c.beforeAll)) (fun c' deeds => Gathered c1 c' deeds ∧
        UntilFailure (hookSteps .beforeAll c (orderHooks (hookOrder env.settings c) c.beforeAll))
          deeds) Calm := by
    apply ((plans_hooksOf .beforeAll c.beforeAll).collectUntilError (counted_hookSteps _ _) c1).calm_mono
    exact fun _ _ ⟨gathered, when⟩ => ⟨gathered, when.held (empty1.mpr none)⟩
  refine (conducts_proceedIf c1 empty1 hooked).bind ?_ fun _ _ calm => calm.no_panic
  rintro c2 beforeHooks ⟨gathered2, when2⟩
  have oneFailure : (raised (beforeAll ++ beforeHooks)).length ≤ 1 := by
    rw [raised_append]
    by_cases none : raised beforeAll = []
    · simpa [none] using when2.raised_length
    · simpa [when2.failed none] using befores.raised_length
  have way : ClassEntry env.settings place c ⟨setUp, beforeAll, beforeHooks, [], [], [], []⟩ := by
    refine ⟨isSetUp.steps, isSetUp.placed, .there fine befores, ?_⟩
    simpa [fine] using when2
  apply (conducts_childrenUnless (gathered1.trans gathered2).whole executes skips).bind
  · rintro _ childrenPart ⟨executed, skipped, silent⟩
    have hooked : raised beforeAll = [] → Conducts timed env (place :: path)
        (do collectAll c2 (← hooksOf .afterAll c c.afterAll)) (fun c' deeds => Gathered c2 c' deeds ∧
          InTurn (hookSteps .afterAll c (orderHooks (hookOrder env.settings c) c.afterAll)) deeds) Calm :=
      fun _ => (plans_hooksOf .afterAll c.afterAll).collectAll (counted_hookSteps _ _) c2
    refine (conducts_proceedIf c2 empty1 hooked).bind ?_ fun _ _ calm => calm.no_panic
    rintro c3 afterHooks ⟨gathered3, when3⟩
    refine ((plans_callbacks (by decide)).collectAll (counted_callbackSteps _ _) c3).mono ?_
      fun _ _ calm => calm.no_panic
    rintro c4 afterAll ⟨gathered4, turns⟩
    have upToChildren := (gathered1.trans gathered2).trans (.untouched c2 silent)
    refine ⟨by simpa using (upToChildren.trans gathered3).trans gathered4, ?_⟩
    intro farewell last
    refine ⟨⟨setUp, beforeAll, beforeHooks, childrenPart, afterHooks, afterAll, farewell⟩,
      by simp [ClassParts.deeds],
      ⟨way.setUp, way.placed, way.beforeAll, way.beforeHooks⟩, ?_, ?_, ?_, ?_, ?_, last⟩
    · simpa [fine] using executed
    · simpa [fine] using skipped
    · simpa [fine] using oneFailure
    · simpa [fine] using when3
    · exact .there fine turns
  · rintro h childrenPart torn payload panicked
    obtain ⟨empty, torn⟩ := torn payload panicked
    refine ⟨⟨setUp, beforeAll, beforeHooks, childrenPart, [], [], []⟩, by simp [ClassParts.deeds],
      ⟨way.setUp, way.placed, way.beforeAll, way.beforeHooks⟩, ?_, torn, rfl, rfl, rfl⟩
    simpa [fine] using empty

/-- A class keeps the order of classes, and its result gathers what it raises. A panic leaves it only
out of a child. -/
theorem conducts_executeClass
    (executes : ExecutesBelow timed env path place children)
    (skips : SkipsBelow timed env path place skip) :
    Conducts timed env (place :: path) (executeClass c place.lifecycle children skip)
      (fun r ds => (∃ p : ClassParts σ ν, ds = p.deeds ∧ ClassOrder env.settings place c p) ∧
        ∃ c' : Collector, r = c'.toResult ∧ Collects c'.primary (raised ds))
      (fun h ds => ∀ payload, h = .panicked payload → ∃ p : ClassParts σ ν,
        ds = p.deeds ∧ ClassTorn env.settings place c payload p) := by
  unfold executeClass
  refine conducts_setUp.bind ?_ fun _ _ calm => calm.no_panic
  rintro outcome setUp ⟨isSetUp, raisedInSetUp, createdInSetUp⟩
  cases outcome with
  | error fault =>
    have failed : raised setUp = [fault.toError] := raisedInSetUp
    have gathers : Collects (Collector.empty.record (.error fault)).primary (raised setUp) := by
      rw [failed]
      exact .single _
    apply (conducts_childrenUnless gathers executes skips).bind
    · rintro _ childrenPart ⟨_, skipped, silent⟩
      refine .pure ⟨⟨⟨setUp, [], [], childrenPart, [], [], []⟩, by simp [ClassParts.deeds], ?_⟩, _, rfl, ?_⟩
      · refine ⟨⟨isSetUp.steps, isSetUp.placed, ?_, ?_⟩, ?_, ?_, ?_, ?_, ?_, ?_⟩
        · exact .missing (by simp [failed])
        · exact .missing (by simp [failed])
        · exact fun none => by simp [failed] at none
        · simpa using skipped
        · simp [failed]
        · exact .missing (by simp [failed])
        · exact .missing (by simp [failed])
        · rw [createdInSetUp]
          exact .nil
      · simpa [silent] using gathers
    · rintro h childrenPart torn payload panicked
      have none := (torn payload panicked).1
      rw [failed] at none
      contradiction
  | ok made =>
    have fine : raised setUp = [] := raisedInSetUp
    have numbers : created setUp = made.map (·.inst.number) := createdInSetUp
    refine (conducts_classSteps isSetUp fine executes skips).bind ?_ fun h ds torn payload panicked =>
      torn payload panicked
    rintro gathered ds ⟨taken, ordered⟩
    refine (conducts_collect gathered (conducts_destroy made)).bind ?_ fun _ _ calm => calm.no_panic
    rintro _ farewell ⟨outcome, rfl, turns, gathers⟩
    obtain ⟨p, same, order⟩ := ordered farewell (by rwa [numbers])
    refine .pure ⟨⟨p, by rw [← same]; simp, order⟩, _, rfl, ?_⟩
    simpa [fine] using (taken.trans (.record gathered gathers)).whole

end
end TestEngine

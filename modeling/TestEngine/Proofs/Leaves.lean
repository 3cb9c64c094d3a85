import TestEngine.Proofs.Stepping

/-! The life of a leaf, step by step: its instances, the callbacks around it, and its body. -/
namespace TestEngine
variable {σ ν α : Type}

namespace Registry
variable {r : Registry (Extension σ ν)} {e : Extension σ ν} {capability : Capability}

theorem supporting_of_mem (h : e ∈ r.extensions capability) : ∃ x ∈ r.supporting capability, x.extension = e := by
  have listed : e ∈ (r.inward capability).map (·.extension) := by
    unfold extensions at h
    dsimp only at h
    split at h
    · exact List.mem_reverse.mp h
    · exact h
  obtain ⟨x, member, rfl⟩ := List.mem_map.mp listed
  simp only [inward, List.mem_append, List.mem_filter] at member
  obtain (⟨found, _⟩ | ⟨found, _⟩) | ⟨found, _⟩ := member <;> exact ⟨x, found, rfl⟩

theorem has_of_mem (h : e ∈ r.extensions capability) : e.has capability = true := by
  obtain ⟨x, found, rfl⟩ := supporting_of_mem h
  exact (List.mem_filter.mp found).2

end Registry

namespace Execution

theorem performs_postProcess (inst : TestInstance) (es : List (Extension σ ν)) (env : Environment σ ν)
    (sites : List (Site σ ν)) :
    Performs timed env sites (postProcess inst es).run fun _ acts => Deed.constructed acts = [] := by
  induction es with
  | nil => exact .pure rfl
  | cons e es ih =>
    unfold postProcess
    split
    · exact ih
    · refine .calm_attempt_bind ((quiet_perform _ _ env sites).step _ rfl) ?_ ?_
      · rintro _ _ ⟨inside, _, rfl⟩
        exact ih.calm_mono (fun _ _ none => none)
      · rintro fault _ ⟨inside, _, rfl⟩
        rfl

theorem performs_construct (c : TestClass σ ν) (enclosing : Option TestInstance) (env : Environment σ ν)
    (sites : List (Site σ ν)) :
    Performs timed env sites (construct c enclosing).run fun outcome acts =>
      ∀ inst, outcome = .ok inst → Deed.constructed acts = [inst.number] := by
  unfold construct
  refine .calm_lift_bind .freshNumber ?_
  rintro number _ rfl
  refine .calm_attempt_bind ((quiet_invoke _ _ _ env sites).step _ rfl) ?_ nofun
  rintro content _ ⟨inside, _, rfl⟩
  refine .calm_lift_bind (.extensions _) ?_
  rintro es _ ⟨rfl, _⟩
  refine .calm_attempt_bind (performs_postProcess _ _ env sites) ?_ nofun
  intro _ acts none
  refine .pure ?_
  rintro inst ⟨⟩
  simpa [Deed.constructed, faultOf] using none

theorem performs_constructAll (chain : List Level) (cs : List (TestClass σ ν)) (env : Environment σ ν)
    (sites : List (Site σ ν)) :
    Performs timed env sites (constructAll chain cs).run fun outcome acts => ∀ longer, outcome = .ok longer →
      ∃ made, longer = chain ++ made ∧ made.map (·.inst.number) = Deed.constructed acts := by
  induction cs generalizing chain with
  | nil =>
    refine .pure ?_
    rintro _ ⟨⟩
    exact ⟨[], by simp, rfl⟩
  | cons c cs ih =>
    unfold constructAll
    refine .calm_attempt_bind (performs_construct c _ env sites) ?_ nofun
    intro inst acts constructed
    apply (ih _).calm_mono
    intro outcome more ends longer same
    obtain ⟨made, rfl, numbers⟩ := ends longer same
    refine ⟨⟨c.name, inst⟩ :: made, by simp, ?_⟩
    have first := constructed inst rfl
    simp only [Deed.constructed] at first numbers ⊢
    simp [first, numbers]

/-- The levels answered are those constructed within the step. -/
theorem performs_instantiate (env : Environment σ ν) (sites : List (Site σ ν)) :
    Performs timed env sites instantiate.run fun outcome acts => ∃ inside,
      acts = [.step .instantiation inside (faultOf outcome)] ∧
        ∀ made, outcome = .ok made → made.map (·.inst.number) = Deed.constructed inside := by
  unfold instantiate
  refine (Performs.step (S := fun outcome acts => ∀ made, outcome = .ok made →
    made.map (·.inst.number) = Deed.constructed acts) ?_ _ rfl).calm_mono ?_
  · refine .calm_lift_bind .frames ?_
    rintro fs _ ⟨rfl, _⟩
    dsimp only
    refine .calm_attempt_bind (performs_constructAll _ _ env sites) ?_ nofun
    intro chain acts ends
    refine .calm_lift_bind (.modifyTop _ (fun _ => rfl)) ?_
    rintro _ _ rfl
    refine .pure ?_
    rintro _ ⟨⟩
    obtain ⟨made, rfl, numbers⟩ := ends chain rfl
    simpa using numbers
  · rintro outcome _ ⟨inside, numbers, rfl⟩
    exact ⟨inside, rfl, numbers⟩

theorem takesStep_invokeOnClass (capability : Capability) (className : String) (m : Method σ ν Unit) :
    TakesStep (fun s => ∃ inst, s = .hook capability className m.name inst)
      (invokeOnClass capability className m) := by
  have taken {code : Attempt σ ν Unit} (inst : Option Nat) (h : Quiet code.run) :
      TakesStep (fun s => ∃ inst, s = .hook capability className m.name inst)
        (Engine.step (.hook capability className m.name inst) code) :=
    (h.takesStep _ rfl).mono fun s same => ⟨inst, same⟩
  unfold invokeOnClass
  split
  · exact taken none (quiet_invoke _ _)
  · intro timed env sites
    refine .calm_lift_bind .instances? ?_
    rintro chain _ rfl
    dsimp only
    split
    · exact taken none (.pure _) timed env sites
    · exact taken _ (quiet_invoke _ _) timed env sites

theorem quiet_eachCode (capability : Capability) (each : EachCallback σ ν) :
    Quiet (eachCode capability each).run := by
  cases each with
  | code code => exact quiet_perform code
  | hook className m => exact .of_performs (takesStep_invokeOnClass capability className m)

/-- The capabilities to be called before or after something. -/
def around : List Capability :=
  [.beforeAll, .afterAll, .beforeEach, .afterEach, .beforeTestExecution, .afterTestExecution]

theorem callback_of_has {e : Extension σ ν} {capability : Capability} (listed : capability ∈ around)
    (has : e.has capability = true) :
    ∃ code, callback capability e = some code ∧ TakesStep (· = .callback capability e.name) code := by
  have found : ∃ code, callbackCode capability e = some code ∧ Quiet code.run := by
    simp only [around, List.mem_cons, List.not_mem_nil, or_false] at listed
    rcases listed with rfl | rfl | rfl | rfl | rfl | rfl
    all_goals
      obtain ⟨code, same⟩ := Option.isSome_iff_exists.mp has
      simp only [callbackCode, same, Option.map_some, Option.some.injEq, exists_eq_left']
    · exact quiet_perform _
    · exact quiet_perform _
    · exact quiet_eachCode _ _
    · exact quiet_eachCode _ _
    · exact quiet_perform _
    · exact quiet_perform _
  obtain ⟨code, same, quiet⟩ := found
  exact ⟨_, by rw [callback, same]; rfl, quiet.takesStep _ rfl⟩

theorem forall₂_filterMap {ε γ δ : Type} {R : γ → δ → Prop} {f : ε → γ} {g : ε → Option δ} {es : List ε}
    (h : ∀ e ∈ es, ∃ d, g e = some d ∧ R (f e) d) : List.Forall₂ R (es.map f) (es.filterMap g) := by
  induction es with
  | nil => exact .nil
  | cons e es ih =>
    obtain ⟨d, same, r⟩ := h e (by simp)
    rw [List.map_cons, List.filterMap_cons_some same]
    exact .cons r (ih fun e member => h e (by simp [member]))

theorem forall₂_flatMap {ε γ δ : Type} {R : γ → δ → Prop} {f : ε → List γ} {g : ε → List δ} {es : List ε}
    (h : ∀ e ∈ es, List.Forall₂ R (f e) (g e)) : List.Forall₂ R (es.flatMap f) (es.flatMap g) := by
  induction es with
  | nil => exact .nil
  | cons e es ih => exact List.rel_append (h e (by simp)) (ih fun e member => h e (by simp [member]))

section
variable {env : Environment σ ν} {place : Place σ ν} {path : List (Place σ ν)}
  {E : Halt → List (Deed σ ν) → Prop}

theorem plans_callbacks {capability : Capability} (listed : capability ∈ around) :
    Plans timed env (place :: path) (place.registry.callbackSteps capability) (callbacks capability) := by
  refine (Goes.extensions capability (E := Calm)).bind ?_ fun _ _ e => e
  rintro es _ ⟨rfl, rfl⟩
  exact .pure ⟨rfl, forall₂_filterMap fun e member => callback_of_has listed (Registry.has_of_mem member)⟩

theorem counted_callbackSteps (r : Registry (Extension σ ν)) (capability : Capability) :
    ∀ P ∈ r.callbackSteps capability, Counted P := by
  intro P member name
  obtain ⟨e, _, rfl⟩ := List.mem_map.mp member
  exact Step.noConfusion

/-- The pre-destroy callbacks of all levels are called, and what they raise is raised together. -/
theorem conducts_destroy (made : List Level) :
    Conducts timed env (place :: path) (destroy made).run (fun outcome deeds =>
      Deed.InTurn (place.registry.farewellSteps (made.map (·.inst.number))) deeds ∧
        Collects (raisedBy outcome) (Deed.raised deeds)) Calm := by
  refine .calm_lift_bind (.extensions _) ?_
  rintro es _ ⟨rfl, rfl⟩
  have counted : ∀ P ∈ place.registry.farewellSteps (made.map (·.inst.number)), Counted P := by
    intro P member name
    obtain ⟨number, _, member⟩ := List.mem_flatMap.mp member
    obtain ⟨e, _, rfl⟩ := List.mem_map.mp member
    exact Step.noConfusion
  have takes (level : Level) : List.Forall₂ TakesStep
      ((place.registry.extensions .instancePreDestroy).map fun e s =>
        s = .preDestroy e.name level.inst.number)
      (farewells level (place.registry.extensions .instancePreDestroy)) := by
    refine forall₂_filterMap fun e member => ?_
    obtain ⟨callback, same⟩ := Option.isSome_iff_exists.mp (Registry.has_of_mem member)
    rw [same]
    exact ⟨_, rfl, (Engine.quiet_occupying _ (quiet_perform _)).takesStep _ rfl⟩
  have allTake : List.Forall₂ TakesStep (place.registry.farewellSteps (made.map (·.inst.number)))
      (made.reverse.flatMap fun level =>
        farewells level (place.registry.extensions .instancePreDestroy)) := by
    rw [Registry.farewellSteps, ← List.map_reverse, List.flatMap_map]
    exact forall₂_flatMap fun level _ => takes level
  refine .calm_lift_bind (conducts_collectAll allTake _) ?_
  rintro c deeds ⟨turns, gathered⟩
  have gathers := (gathered counted).whole
  refine (Goes.raising c.primary).mono ?_ fun _ _ e => e
  rintro outcome _ ⟨rfl, same⟩
  exact ⟨by simpa using turns, by simpa using gathers.raising same⟩

theorem goes_innermost? {T : Telling ν (Deed σ ν)} {sites : List (Site σ ν)} :
    Goes T env sites innermost? (fun _ deeds => deeds = []) E :=
  Goes.instances?.bind (fun _ _ same => .pure (by rw [same]; rfl)) fun _ _ e => e

open Deed

variable {IsBody : List (Deed σ ν) → Prop} {body : Option TestInstance → Attempt σ ν Unit}

/-- The callbacks right around a body, and the body if those before it succeed. -/
def Around (r : Registry (Extension σ ν)) (IsBody : List (Deed σ ν) → Prop)
    (deeds : List (Deed σ ν)) : Prop :=
  ∃ before body after, deeds = before ++ body ++ after ∧
    UntilFailure (r.callbackSteps .beforeTestExecution) before ∧
    When (raised before = []) IsBody body ∧ InTurn (r.callbackSteps .afterTestExecution) after

theorem conducts_aroundBody {c : Collector} (none : c.isEmpty = true)
    (bodily : ∀ inst, Conducts timed env (place :: path) (body inst).run
      (fun outcome deeds => IsBody deeds ∧ Collects (raisedBy outcome) (raised deeds)) Calm) :
    Conducts timed env (place :: path) (aroundBody c body)
      (fun c' deeds => Gathered c c' deeds ∧ Around place.registry IsBody deeds) Calm := by
  unfold aroundBody
  rw [← bind_assoc]
  apply ((plans_callbacks (by decide)).collectUntilError (counted_callbackSteps _ _) c).calm_bind
  rintro c1 before ⟨gathered1, when1⟩
  have empty1 : c1.isEmpty = true ↔ raised before = [] := by
    have start : Collects c.primary [] := by
      rw [Option.isNone_iff_eq_none.mp none]
      exact .nil
    simpa using (gathered1 _ start).isEmpty_iff
  have invoked (c : Collector) : Conducts timed env (place :: path) (do collect c (body (← innermost?)))
      (fun c' deeds => Gathered c c' deeds ∧ IsBody deeds) Calm := by
    apply (goes_innermost?).calm_bind
    rintro inst _ rfl
    apply (conducts_collect c (bodily inst)).calm_mono
    rintro _ deeds ⟨outcome, rfl, isBody, gathers⟩
    exact ⟨.record c gathers, isBody⟩
  apply (conducts_proceedIf c1 empty1 fun _ => invoked c1).calm_bind
  rintro c2 bodyPart ⟨gathered2, when2⟩
  apply (conducts_showException c2).calm_bind
  rintro _ _ rfl
  apply ((plans_callbacks (by decide)).collectAll (counted_callbackSteps _ _) c2).calm_mono
  rintro c3 after ⟨gathered3, turns⟩
  refine ⟨?_, before, bodyPart, after, by simp, when1.held none, when2, turns⟩
  simpa using (gathered1.trans gathered2).trans gathered3

theorem conducts_leafSteps
    (bodily : ∀ inst, Conducts timed env (place :: path) (body inst).run
      (fun outcome deeds => IsBody deeds ∧ Collects (raisedBy outcome) (raised deeds)) Calm) :
    Conducts timed env (place :: path) (leafSteps body) (fun c' deeds => Gathered .empty c' deeds ∧
      ∃ before around after, deeds = before ++ around ++ after ∧
        UntilFailure (place.registry.callbackSteps .beforeEach) before ∧
        When (raised before = []) (Around place.registry IsBody) around ∧
        InTurn (place.registry.callbackSteps .afterEach) after) Calm := by
  unfold leafSteps
  rw [← bind_assoc]
  apply ((plans_callbacks (by decide)).collectUntilError (counted_callbackSteps _ _) .empty).calm_bind
  rintro c1 before ⟨gathered1, when1⟩
  have empty1 : c1.isEmpty = true ↔ raised before = [] := gathered1.whole.isEmpty_iff
  apply (conducts_proceedIf c1 empty1 fun none => conducts_aroundBody (empty1.mpr none) bodily).calm_bind
  rintro c2 around ⟨gathered2, when2⟩
  apply (conducts_showException c2).calm_bind
  rintro _ _ rfl
  apply ((plans_callbacks (by decide)).collectAll (counted_callbackSteps _ _) c2).calm_mono
  rintro c3 after ⟨gathered3, turns⟩
  refine ⟨?_, before, around, after, by simp, when1.held rfl, when2, turns⟩
  simpa using (gathered1.trans gathered2).trans gathered3

/-- What is around a body is there in parts, each on its own condition. -/
theorem around_parts {r : Registry (Extension σ ν)} {before around : List (Deed σ ν)}
    (arounds : When (raised before = []) (Around r IsBody) around) :
    ∃ beforeExecution bodyPart afterExecution, around = beforeExecution ++ bodyPart ++ afterExecution ∧
      When (raised before = []) (UntilFailure (r.callbackSteps .beforeTestExecution)) beforeExecution ∧
      When (raised (before ++ beforeExecution) = []) IsBody bodyPart ∧
      When (raised before = []) (InTurn (r.callbackSteps .afterTestExecution)) afterExecution := by
  by_cases none : raised before = []
  · obtain ⟨beforeExecution, bodyPart, afterExecution, rfl, first, second, third⟩ := arounds.held none
    exact ⟨beforeExecution, bodyPart, afterExecution, rfl, .there none first, by simpa [none] using second,
      .there none third⟩
  · rw [arounds.failed none]
    exact ⟨[], [], [], rfl, .missing none, .missing (by simp [none]), .missing none⟩

/-- Whatever its body is, a leaf keeps the order of leaves, and its result gathers what it raises. -/
theorem conducts_leaf
    (bodily : ∀ inst, Conducts timed env (place :: path) (body inst).run
      (fun outcome deeds => IsBody deeds ∧ Collects (raisedBy outcome) (raised deeds)) Calm) :
    Conducts timed env (place :: path) (leaf body) (fun r deeds =>
      (∃ p : LeafParts σ ν, deeds = p.deeds ∧ LeafOrder place.registry IsBody p) ∧
        ∃ c : Collector, r = c.toResult ∧ Collects c.primary (raised deeds)) Calm := by
  unfold leaf
  apply (Performs.conducts (performs_instantiate env _)).calm_bind
  rintro outcome _ ⟨_, ⟨inside, rfl, numbers⟩, rfl⟩
  cases outcome with
  | error fault =>
    refine .pure ⟨⟨⟨[.act (.step .instantiation inside (some fault))], [], [], [], [], [], []⟩, rfl, ?_⟩,
      ⟨some fault.toError⟩, rfl, .single _⟩
    have failed : raised [(.act (.step .instantiation inside (some fault)) : Deed σ ν)] ≠ [] :=
      List.cons_ne_nil _ _
    constructor
    · exact .failed rfl
    · exact .missing failed
    · exact .missing failed
    · exact .missing failed
    · exact .missing failed
    · exact .missing failed
    · exact .nil
  | ok made =>
    apply (conducts_leafSteps bodily).calm_bind
    rintro c1 _ ⟨gathered1, before, around, after, rfl, befores, arounds, afters⟩
    apply (conducts_collect c1 (conducts_destroy made)).calm_bind
    rintro _ farewell ⟨outcome, rfl, turns, gathers⟩
    have gathered := (gathered1.trans (.record c1 gathers)).whole
    obtain ⟨beforeExecution, bodyPart, afterExecution, rfl, first, second, third⟩ := around_parts arounds
    have ok : raised [(.act (.step .instantiation inside none) : Deed σ ν)] = [] := rfl
    refine .pure ⟨⟨⟨[.act (.step .instantiation inside none)], before, beforeExecution, bodyPart,
      afterExecution, after, farewell⟩, by simp [LeafParts.deeds, faultOf], ?_⟩, _, rfl, ?_⟩
    · constructor
      · exact .succeeded rfl .nil
      · exact .there ok befores
      · simpa using first
      · simpa using second
      · simpa using third
      · exact .there ok afters
      · simpa [created, numbers made rfl] using turns
    · simpa [faultOf] using gathered

end
end Execution
end TestEngine

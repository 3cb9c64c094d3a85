import TestEngine.Proofs.Admitting

/-! Visits with what is around them: resources are taken for a node, it has a frame of its own, and what is told of it
amounts to a visit with its law kept. -/
namespace TestEngine
variable {σ ν α : Type}

open Deed Execution

section
variable {env : Environment σ ν} {path : List (Place σ ν)}

variable {v : Visit σ ν} {skip : String → Engine σ ν Unit}

/-- The entries are those of a visit with its law kept, its announcement apart. If it comes to its end, more is
known of what happens inside. -/
def Amounts (timed : Prop) (env : Environment σ ν) (path : List (Place σ ν)) (v : Visit σ ν)
    (Inside : List (Deed σ ν) → Prop) (es : List (Entry ν)) : Prop :=
  ∃ inside, es = v.opening ++ Deed.entriesAll v.descriptor.node inside ++ v.closing ∧
    Deed.Everywhere (FullLaw timed env) path (.visit v inside) ∧ (v.leaving = .ended → Inside inside)

def Makes (timed : Prop) (env : Environment σ ν) (path : List (Place σ ν)) (v : Visit σ ν)
    (Inside : List (Deed σ ν) → Prop) (code : Engine σ ν Unit) : Prop :=
  Goes (.raw timed) env (path.map (·.toSite)) code
    (fun _ es => Amounts timed env path { v with leaving := .ended } Inside es)
    (fun h es => Amounts timed env path { v with leaving := .of h } Inside es)

def OneVisit (timed : Prop) (env : Environment σ ν) (path : List (Place σ ν)) (v : Visit σ ν)
    (Inside : List (Deed σ ν) → Prop) (ds : List (Deed σ ν)) : Prop :=
  ∃ inside, ds = [.visit v inside] ∧ FullLaw timed env path v inside ∧ (v.leaving = .ended → Inside inside)

variable {Inside : List (Deed σ ν) → Prop}

theorem Amounts.told {es : List (Entry ν)} (h : Amounts timed env path v Inside es) :
    ∃ ds, (Telling.course timed env path).entries ds = v.announcement ++ es ∧
      (∀ d ∈ ds, (Telling.course timed env path).lawful d) ∧ OneVisit timed env path v Inside ds := by
  obtain ⟨inside, rfl, everywhere, known⟩ := h
  refine ⟨[.visit v inside], by simp [Telling.course, Deed.entriesAll, Deed.entries], ?_, inside, rfl, ?_, known⟩
  · intro d member
    rw [List.mem_singleton.mp member]
    exact ⟨everywhere, by simp, by simp⟩
  · cases everywhere with
    | visit law _ => exact law

theorem Makes.conducts {code : Engine σ ν Unit} (h : Makes timed env path v Inside code)
    (quiet : v.announced = false) :
    Conducts timed env path code (fun _ ds => OneVisit timed env path { v with leaving := .ended } Inside ds)
      (fun h ds => OneVisit timed env path { v with leaving := .of h } Inside ds) := by
  refine h.retell rfl ?_ ?_
  · intro _ es amounts _
    obtain ⟨ds, same, lawful, one⟩ := amounts.told
    exact ⟨ds, by simpa [Telling.raw, Visit.announcement, quiet] using same, lawful, one⟩
  · intro h es amounts _
    obtain ⟨ds, same, lawful, one⟩ := amounts.told
    exact ⟨ds, by simpa [Telling.raw, Visit.announcement, quiet] using same, lawful, one⟩

/-- A visit to a node made at run time is announced right before. -/
theorem Makes.announced {code : Engine σ ν Unit} (h : Makes timed env path v Inside code)
    (announced : v.announced = true) :
    Conducts timed env path (do Engine.report v.descriptor.node .registered; code)
      (fun _ ds => OneVisit timed env path { v with leaving := .ended } Inside ds)
      (fun h ds => OneVisit timed env path { v with leaving := .of h } Inside ds) := by
  have reported : Goes (.raw timed) env (path.map (·.toSite)) (Engine.report v.descriptor.node .registered)
      (fun _ es => es = v.announcement) (fun _ _ => False) :=
    .append v.announcement _ (by simp [Telling.raw, Visit.announcement, announced])
      (fun _ _ => trivial) rfl
  have whole : Goes (.raw timed) env (path.map (·.toSite)) (do Engine.report v.descriptor.node .registered; code)
      (fun _ es => ∃ own, es = v.announcement ++ own ∧ Amounts timed env path { v with leaving := .ended } Inside own)
      (fun h es => ∃ own, es = v.announcement ++ own ∧
        Amounts timed env path { v with leaving := .of h } Inside own) := by
    refine reported.bind ?_ fun _ _ never => never.elim
    rintro _ _ rfl
    exact h.mono (fun _ es amounts => ⟨es, rfl, amounts⟩) fun _ es amounts => ⟨es, rfl, amounts⟩
  refine whole.retell rfl ?_ ?_
  · rintro _ _ ⟨own, rfl, amounts⟩ _
    exact amounts.told
  · rintro h _ ⟨own, rfl, amounts⟩ _
    exact amounts.told

/-- How a visit is left has no bearing on its resources. -/
theorem Secured.left (h : Secured path v) (leaving : Leaving) : Secured path { v with leaving } where
  executed := h.executed
  others := h.others
  held := h.held
  undeclared := h.undeclared

theorem Admissible.ended {ds : List (Deed σ ν)} (h : Admissible env path v) (secured : Secured path v)
    (watched : ∀ a, .act a ∈ ds → a.WatchedAs v.descriptor.kind) (kept : Kept timed env path v ds) :
    FullLaw timed env path { v with leaving := .ended } ds where
  registry := h.registry
  lifecycle := h.lifecycle
  declared := h.declared
  dynamic := h.dynamic
  ended _ := by
    cases kept.conduct with
    | refused a b c d => exact .refused a b c d
    | disabled a b => exact .disabled a b
    | unclear a b c => exact .unclear a b c
    | entered a b c => exact .entered a b c
    | passedOver a b => exact .passedOver a b
    | made a b c => exact .made a b c
  torn := nofun
  result r member := ⟨rfl, (kept.result r member).toSumsUp⟩
  leading r member := (kept.result r member).leading
  generates _ := kept.generates
  runsTest _ := kept.runsTest
  skipped _ := kept.skipped
  passes reason manner := by
    have manner : v.manner = .passedOver reason := manner
    cases kept.conduct with
    | passedOver _ skip => exact skip.onlyPasses
    | refused executed | disabled executed | unclear executed | entered executed | made executed =>
      rw [executed] at manner
      contradiction
  secured := secured.left _
  watched := watched
  endTold _ := kept.endTold
  made _ manner := by
    cases kept.made manner with
    | test kind finish => exact .test kind finish
    | container kind spent finish => exact .container kind spent finish

theorem Admissible.broken {ds : List (Deed σ ν)} (h : Admissible env path v) (secured : Secured path v)
    (watched : ∀ a, .act a ∈ ds → a.WatchedAs v.descriptor.kind)
    (passes : ∀ reason, v.manner = .passedOver reason → OnlyPasses ds) (unfinished : Unfinished ds)
    (torn : ∀ payload, halt = .panicked payload → v.manner = .executed ∧ ∃ asked course,
      ds = admission asked none ++ .report .started :: course ∧
        CourseTorn env.settings path v.place payload course) :
    FullLaw timed env path { v with leaving := .of halt } ds where
  registry := h.registry
  lifecycle := h.lifecycle
  declared := h.declared
  dynamic := h.dynamic
  ended left := by cases halt <;> contradiction
  torn payload left := by
    refine torn payload ?_
    cases halt <;> simp_all [Leaving.of]
  result r member := absurd member (unfinished r)
  leading r member := absurd member (unfinished r)
  generates left := by cases halt <;> contradiction
  runsTest left := by cases halt <;> contradiction
  passes := passes
  secured := secured.left _
  watched := watched
  endTold left := by cases halt <;> contradiction
  made left := by cases halt <;> contradiction
  skipped left := by cases halt <;> contradiction

/-- The entries are those of what happens inside a visit with its law kept. -/
def Fills (timed : Prop) (env : Environment σ ν) (path : List (Place σ ν)) (v : Visit σ ν)
    (Inside : List (Deed σ ν) → Prop) (es : List (Entry ν)) : Prop :=
  ∃ inside, es = Deed.entriesAll v.descriptor.node inside ∧
    Deed.Everywhere (FullLaw timed env) path (.visit v inside) ∧ (v.leaving = .ended → Inside inside)

theorem fills_within {f : Frame σ ν} {code : Engine σ ν Unit} {S : Unit → List (Deed σ ν) → Prop}
    {E : Halt → List (Deed σ ν) → Prop} (site : f.site = v.place.toSite)
    (h : Does timed env (v.place :: path) code S E)
    (ended : ∀ ds, (∀ a, .act a ∈ ds → a.WatchedAs v.descriptor.kind) → S () ds →
      FullLaw timed env path { v with leaving := .ended } ds ∧ Inside ds)
    (broken : ∀ h ds, (∀ a, .act a ∈ ds → a.WatchedAs v.descriptor.kind) → E h ds →
      FullLaw timed env path { v with leaving := .of h } ds) :
    Goes (.raw timed) env (path.map (·.toSite)) (Engine.within f code)
      (fun _ es => Fills timed env path { v with leaving := .ended } Inside es)
      (fun h es => Fills timed env path { v with leaving := .of h } Inside es) := by
  have inner : Goes (.deeds timed env (v.place :: path)) env (f.site :: path.map (·.toSite)) code S E := by
    rw [site]
    exact h
  apply inner.within.mono
  · rintro _ _ ⟨inside, rfl, lawful, s⟩
    obtain ⟨law, known⟩ := ended _ (fun a member => (lawful _ member).2 a rfl) s
    exact ⟨inside, rfl, .visit law fun d member => (lawful d member).1, fun _ => known⟩
  · rintro halted _ ⟨inside, rfl, lawful, e⟩
    have law := broken _ _ (fun a member => (lawful _ member).2 a rfl) e
    exact ⟨inside, rfl, .visit law fun d member => (lawful d member).1, fun left => by cases halted <;> contradiction⟩

theorem Fills.amounts {es : List (Entry ν)} (h : Fills timed env path v Inside es) (free : v.locks = []) :
    Amounts timed env path v Inside es := by
  obtain ⟨inside, rfl, law⟩ := h
  refine ⟨inside, ?_, law⟩
  unfold Visit.opening Visit.closing
  cases v.leaving <;> simp [free]

/-- The resources of a visit are taken around it. -/
theorem makes_holding {code : Engine σ ν Unit}
    (h : Goes (.raw timed) env (path.map (·.toSite)) code
      (fun _ es => Fills timed env path { v with leaving := .ended } Inside es)
      (fun h es => Fills timed env path { v with leaving := .of h } Inside es)) :
    Makes timed env path v Inside (holding v.id v.locks code) := by
  have marked (e : Entry ν) {E : Halt → List (Entry ν) → Prop} :
      Goes (.raw timed) env (path.map (·.toSite)) (markTaken v.locks e)
        (fun _ es => es = if v.locks.isEmpty then [] else [e]) E := by
    unfold markTaken
    split
    · exact .pure rfl
    · exact .append [e] _ rfl (fun _ _ => trivial) rfl
  refine (marked (.locked v.id v.locks) (E := fun _ _ => False)).bind ?_ fun _ _ never => never.elim
  rintro _ _ rfl
  apply h.bind
  · rintro _ _ ⟨inside, rfl, law⟩
    refine (marked (.unlocked v.id) (E := fun _ _ => False)).mono ?_ fun _ _ never => never.elim
    rintro _ _ rfl
    exact ⟨inside, by simp [Visit.opening, Visit.closing], law⟩
  · rintro halted _ ⟨inside, rfl, law⟩
    refine ⟨inside, ?_, law⟩
    cases halted <;> simp [Visit.opening, Visit.closing, Leaving.of]

theorem lifecycleOf_eq {settings : Settings} {d : Descriptor σ ν} {above : Option (Frame σ ν)}
    (same : above.map Frame.site = (path.map (·.toSite)).head?) :
    lifecycleOf settings d above = lifecycleBelow settings path d := by
  unfold lifecycleOf lifecycleBelow
  cases d.testClass? with
  | some c => rfl
  | none =>
    have lifecycles := congrArg (Option.map Site.lifecycle) same
    simp only [Option.map_map, List.head?_map] at lifecycles
    exact congrArg (Option.getD · settings.defaultLifecycle) lifecycles

theorem goes_frameFor {T : Telling ν δ} (d : Descriptor σ ν) (registry : Registry (Extension σ ν))
    (held : List String) {E : Halt → List δ → Prop} :
    Goes T env (path.map (·.toSite)) (frameFor d registry held) (fun f xs => xs = [] ∧
      f.site = ⟨d, registry, lifecycleBelow env.settings path d, held⟩) E := by
  refine (Goes.settings (E := E)).bind ?_ fun _ _ e => e
  rintro _ _ ⟨rfl, rfl⟩
  refine (Goes.top? (E := E)).bind ?_ fun _ _ e => e
  rintro top _ ⟨rfl, same⟩
  exact .pure ⟨rfl, by rw [← lifecycleOf_eq same]; rfl⟩

theorem goes_registryAbove {T : Telling ν δ} {E : Halt → List δ → Prop} :
    Goes T env (path.map (·.toSite)) Engine.currentRegistry
      (fun r xs => xs = [] ∧ r = registryAbove env path) E := by
  refine Goes.currentRegistry.mono ?_ fun _ _ e => e
  rintro r xs ⟨rfl, rfl⟩
  refine ⟨rfl, ?_⟩
  cases path <;> rfl

theorem registerAll_error {r : Registry (Extension σ ν)} {ds : List (Declared σ ν)}
    (h : registerAll r ds = .error e) : e.isAborted = false := by
  induction ds generalizing r with
  | nil => contradiction
  | cons d ds ih =>
    unfold registerAll Registry.register at h
    cases conflict : r.conflict? d.extension d.position with
    | none =>
      rw [conflict] at h
      exact ih h
    | some error =>
      rw [conflict] at h
      cases h
      unfold Registry.conflict? at conflict
      split at conflict
      · contradiction
      · obtain ⟨capability, _, found⟩ := List.exists_of_findSome?_eq_some conflict
        split at found
        · obtain ⟨_, _, rfl⟩ := Option.map_eq_some_iff.mp found
          rfl
        · contradiction

variable {d : Descriptor σ ν} {below : List (TestTree σ ν)} {announced : Bool}

/-- Executing a node makes one visit to it, if what is below can be passed over and what it does keeps
the course of such a node. -/
theorem makes_visit {subtree : List String} {body : Engine σ ν ExecutionResult}
    (declared : announced = false → ∀ p ∈ path.head?, .node d below ∈ p.below)
    (dynamic : announced = true → d.role = .dynamic ∧ below = []) (undeclared : announced = true → d.locks = [])
    (locks : subtree = (TestTree.node d below).preorder.flatMap (·.locks))
    (skips : ∀ place : Place σ ν, place.descriptor = d → place.below = below →
      SkipsBelow timed env path place skip)
    (bodily : ∀ place : Place σ ν, place.descriptor = d → place.below = below →
      TakesCourse timed env path place body) :
    ∃ v : Visit σ ν, v.descriptor = d ∧ v.place.below = below ∧ v.manner = .executed ∧
      v.announced = announced ∧ Makes timed env path v (fun _ => True) (Execution.visit d subtree skip body) := by
  let taken := locksToTake d subtree (heldAbove path)
  let v : Visit σ ν :=
    { place := ⟨⟨d, registryBelow env path d, lifecycleBelow env.settings path d, heldAbove path ++ taken⟩, below⟩
      manner := .executed, announced, locks := taken, leaving := .ended }
  have admissible : Admissible env path v := ⟨rfl, rfl, declared, dynamic⟩
  have secured : Secured path v :=
    ⟨fun _ => by simp only [v, taken, locks, Visit.declared], fun other => absurd rfl other, fun _ => rfl,
      fun made => undeclared (made.resolve_right nofun)⟩
  refine ⟨v, rfl, rfl, rfl, rfl, ?_⟩
  have held (f : Option (Frame σ ν)) (same : f.map Frame.site = (path.map (·.toSite)).head?) :
      (f.map (·.held)).getD [] = heldAbove path := by
    have held := congrArg (Option.map Site.held) same
    simp only [Option.map_map, List.head?_map] at held
    exact congrArg (Option.getD · []) held
  refine (Goes.top? (E := fun _ _ => False)).bind ?_ fun _ _ never => never.elim
  rintro f _ ⟨rfl, same⟩
  dsimp only
  rw [held f same]
  refine makes_holding (v := v) ?_
  refine (goes_registryAbove (E := fun _ _ => False)).bind ?_ fun _ _ never => never.elim
  rintro _ _ ⟨rfl, rfl⟩
  refine (Goes.settings (E := fun _ _ => False)).bind ?_ fun _ _ never => never.elim
  rintro _ _ ⟨rfl, rfl⟩
  split
  · rename_i e refused
    refine (goes_frameFor _ _ _ (E := fun _ _ => False)).bind ?_ fun _ _ never => never.elim
    rintro f _ ⟨rfl, site⟩
    have site : f.site = v.place.toSite := by simp only [site, v, registryBelow, refused, taken]
    refine fills_within site
      (does_refused (v := v) rfl refused (registerAll_error refused) (skips _ rfl rfl)) ?_ ?_
    · exact fun ds watched kept => ⟨admissible.ended secured watched kept, trivial⟩
    · exact fun h ds watched hanging =>
        admissible.broken secured watched nofun hanging.1 fun p panicked => absurd panicked (hanging.2 p)
  · rename_i registry registered
    refine (goes_frameFor _ _ _ (E := fun _ _ => False)).bind ?_ fun _ _ never => never.elim
    rintro f _ ⟨rfl, site⟩
    have site : f.site = v.place.toSite := by simp only [site, v, registryBelow, registered, taken]
    refine fills_within site (does_admitted (v := v) rfl (skips _ rfl rfl) (bodily _ rfl rfl)) ?_ ?_
    · exact fun ds watched kept => ⟨admissible.ended secured watched kept, trivial⟩
    · exact fun h ds watched broken =>
        admissible.broken secured watched nofun broken.unfinished fun p panicked => ⟨rfl, broken.torn p panicked⟩

/-- Passing a node over makes one visit to it, if that does what is below. -/
theorem makes_visitSkipped {reason : String} {code : Engine σ ν Unit}
    (declared : ∀ p ∈ path.head?, .node d below ∈ p.below)
    (skips : ∀ place : Place σ ν, place.descriptor = d → place.below = below →
      Conducts timed env (place :: path) code (fun _ ds => PassedOver reason below ds) Passing) :
    ∃ v : Visit σ ν, v.descriptor = d ∧ v.place.below = below ∧ v.manner = .passedOver reason ∧
      v.announced = false ∧ Makes timed env path v (fun _ => True) (visitSkipped d reason code) := by
  let v : Visit σ ν :=
    { place := ⟨⟨d, registryBelow env path d, lifecycleBelow env.settings path d, []⟩, below⟩
      manner := .passedOver reason, announced := false, locks := [], leaving := .ended }
  have admissible : Admissible env path v := ⟨rfl, rfl, fun _ => declared, by simp [v]⟩
  have secured : Secured path v := ⟨by simp [v], fun _ => rfl, fun runs => absurd rfl (runs reason), by simp [v]⟩
  refine ⟨v, rfl, rfl, rfl, rfl, ?_⟩
  refine (goes_registryAbove (E := fun _ _ => False)).bind ?_ fun _ _ never => never.elim
  rintro _ _ ⟨rfl, rfl⟩
  refine (Goes.settings (E := fun _ _ => False)).bind ?_ fun _ _ never => never.elim
  rintro _ _ ⟨rfl, rfl⟩
  refine (goes_frameFor _ _ _ (E := fun _ _ => False)).bind ?_ fun _ _ never => never.elim
  rintro f _ ⟨rfl, site⟩
  refine (fills_within (v := v) site (does_reportSkipped (skips v.place rfl rfl)) ?_ ?_).mono
    (fun _ _ fills => fills.amounts rfl) fun _ _ fills => fills.amounts rfl
  · rintro ds watched ⟨skipped, told, unfinished, acts⟩
    have unstarted : ∀ asked rest, ds ≠ admission asked none ++ .report .started :: rest := by
      obtain ⟨told, skips, closing, fault, rfl, _⟩ := skipped
      simp [admission]
    refine ⟨admissible.ended secured watched ?_, trivial⟩
    exact {
      conduct := .passedOver rfl skipped
      result := fun r member => absurd member (unfinished r)
      generates := fun asked rest same => absurd same (unstarted asked rest)
      runsTest := fun asked rest same => absurd same (unstarted asked rest)
      made := by simp [v]
      skipped := fun _ _ => acts
      endTold := told.endTold }
  · exact fun h ds watched hanging =>
      admissible.broken secured watched (fun _ _ => hanging.2) hanging.1.1 fun p panicked =>
        absurd panicked (hanging.1.2 p)

end
end TestEngine

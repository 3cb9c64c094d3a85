import TestEngine.Proofs.Nesting
import TestEngine.Proofs.Phases

/-! A panic of user code is an error of the step it is raised in, and the run goes on behind it. There is
one exception: a provider that panics when it is asked whether it supports a template. That panic leaves the
template and the nodes above it unfinished, and where none of them runs beside its siblings it ends the
run. -/
namespace TestEngine
variable {σ ν : Type} {env : Environment σ ν} {settings : Settings} {path : List (Place σ ν)}
  {place : Place σ ν} {v : Visit σ ν} {inside ds : List (Deed σ ν)}

open Deed

/-- Listeners are told that the node is started and finished, or that it is skipped. -/
def Reported (inside : List (Deed σ ν)) : Prop :=
  (.report .started ∈ inside ∧ ∃ r, .report (.finished r) ∈ inside) ∨
    ∃ reason, .report (.skipped reason) ∈ inside

/-- If one of the trees declared below the node is visited, each of them is exactly once. -/
def SiblingsVisited (v : Visit σ ν) (inside : List (Deed σ ν)) : Prop :=
  (∃ p ∈ visits inside, p.1.announced = false) →
    ((visits inside).map (·.1.tree)).Perm v.place.below ∧
      ∀ p ∈ visits inside, p.1.manner = .executed ∨ ∃ reason, p.1.manner = .passedOver reason

structure Complete (v : Visit σ ν) (inside : List (Deed σ ν)) : Prop where
  reported : Reported inside
  siblings : SiblingsVisited v inside

theorem Finish.reported (h : Finish place ds) : ∃ r, .report (.finished r) ∈ ds := by
  obtain ⟨_, _, _, r, rfl, _⟩ := h
  exact ⟨r, by simp⟩

theorem Skip.reported (h : Skip place reason ds) : .report (.skipped reason) ∈ ds := by
  obtain ⟨_, _, _, _, rfl, _⟩ := h
  simp

theorem Conduct.reported (h : Conduct env path v inside) : Reported inside := by
  cases h with
  | refused _ _ _ finish | unclear _ _ finish | entered _ _ finish | made _ _ finish =>
    obtain ⟨r, finished⟩ := finish.reported
    exact .inl ⟨by simp, r, by simp [finished]⟩
  | disabled _ skip => exact .inr ⟨_, List.mem_append_right _ skip.reported⟩
  | passedOver _ skip => exact .inr ⟨_, skip.reported⟩

/-- Children run beside one another are behind those on the same thread, and still each of them is there
once. -/
theorem ChildrenExecuted.each (h : ChildrenExecuted settings place ds) :
    ((Deed.visits ds).map (·.1.tree)).Perm place.below ∧
      ∀ p ∈ Deed.visits ds, p.1.manner = .executed ∧ p.1.leaving ≠ .stuck := by
  obtain ⟨sameThread, concurrent, rfl, first, second⟩ := h
  obtain ⟨trees, each⟩ := visits_each first
  obtain ⟨others, eachOther⟩ := visits_each second
  rw [visits_append, List.map_append, trees, others]
  refine ⟨List.perm_append_comm.trans (List.filter_append_perm _ _), fun p member => ?_⟩
  rcases List.mem_append.mp member with member | member
  · exact ⟨(each p member).1, by simp [(each p member).2]⟩
  · refine ⟨(eachOther p member).1, ?_⟩
    rcases (eachOther p member).2 with left | ⟨payload, left⟩ <;> simp [left]

theorem Children.siblings (h : Children settings v.place ds) : SiblingsVisited v ds := by
  rintro ⟨p, member, declared⟩
  cases h with
  | made numbered same =>
    rw [same] at member
    simp [(numbered.distinct.1 p member).1] at declared
  | executed children same =>
    rw [same]
    exact ⟨children.each.1, fun p member => .inl (children.each.2 p member).1⟩
  | passedOver trees same =>
    obtain ⟨trees, each⟩ := visits_each trees
    rw [same]
    exact ⟨.of_eq trees, fun p member => .inr ⟨_, (each p member).1⟩⟩

theorem Conduct.complete (h : Conduct env path v inside) : Complete v inside :=
  ⟨h.reported, h.children.siblings⟩

theorem Children.unstuck (h : Children settings place ds) : ∀ p ∈ visits ds, p.1.leaving ≠ .stuck := by
  intro p member
  cases h with
  | made numbered same =>
    rw [same] at member
    simp [(numbered.distinct.1 p member).2.1]
  | executed children same => exact (children.each.2 p (same ▸ member)).2
  | passedOver trees same =>
    rw [same] at member
    simp [((visits_each trees).2 p member).2]

theorem ChildrenTorn.unstuck {below : List (TestTree σ ν)} (h : ChildrenTorn payload below ds) :
    ∀ p ∈ visits ds, p.1.leaving ≠ .stuck := by
  obtain ⟨before, _, _, rfl, ended, _, v, inside, rfl, _, _, _, left⟩ := h
  intro p member
  rw [visits_append, List.mem_append] at member
  rcases member with member | member
  · obtain ⟨_, _, _, _, same, _, _, _, left⟩ := ended _ (mem_visits member)
    cases same
    simp [left]
  · cases List.mem_singleton.mp member
    simp [left]

theorem CourseTorn.unstuck (h : CourseTorn settings path place payload ds) :
    ∀ p ∈ visits ds, p.1.leaving ≠ .stuck := by
  cases h with
  | @testClass c p _ torn =>
    have same : visits p.deeds = visits p.children := by
      simp [ClassParts.deeds, torn.setUp.visits, torn.beforeAll.visits UntilFailure.visits,
        torn.beforeHooks.visits UntilFailure.visits, torn.afterHooks, torn.afterAll, torn.farewell]
    exact same ▸ torn.children.unstuck
  | template _ torn =>
    obtain ⟨acts, extension, inside, rfl⟩ := torn
    intro p member
    obtain ⟨_, _, same⟩ | ⟨_, same⟩ : (∃ a ∈ acts, Deed.act a = .visit p.1 p.2) ∨
        Deed.act (.step (.supports extension) inside (some (.panic payload))) = .visit p.1 p.2 := by
      simpa using mem_visits member
    · contradiction
  | container _ _ torn => exact torn.unstuck

theorem Law.unstuck (law : Law env path v inside) (left : v.leaving ≠ .stuck) :
    ∀ p ∈ visits inside, p.1.leaving ≠ .stuck := by
  cases leaving : v.leaving with
  | stuck => exact absurd leaving left
  | ended => exact (law.ended leaving).children.unstuck
  | torn payload =>
    obtain ⟨_, asked, course, rfl, torn⟩ := law.torn payload leaving
    simpa [admission] using torn.unstuck

/-- The node comes to its end, or a provider's panic in it or below goes on above it. -/
def Contained (v : Visit σ ν) (inside : List (Deed σ ν)) : Prop :=
  (v.leaving = .ended ∧ Complete v inside ∧ ∀ payload, ¬ Escapes payload inside) ∨
    ∃ payload, v.leaving = .torn payload ∧ Escapes payload inside

theorem Law.contained (law : Law env path v inside)
    (lawful : ∀ d ∈ inside, Everywhere (Law env) (v.place :: path) d) (left : v.leaving ≠ .stuck) :
    Contained v inside := by
  cases leaving : v.leaving with
  | stuck => exact absurd leaving left
  | ended => exact .inl ⟨leaving, (law.ended leaving).complete, fun _ => (law.ended leaving).contains⟩
  | torn payload =>
    exact .inr ⟨payload, leaving, (Everywhere.visit law lawful).escapes v inside rfl leaving⟩

/-- The mark of a provider that panics when it is asked whether it supports a template. -/
def SupportPanics (payload : PanicPayload) (trace : List (Entry ν)) : Prop :=
  ∃ id extension, .step id (.supports extension) (.ended (some (.panic payload))) ∈ trace

def Entry.asksSupport : Entry ν → Bool
  | .step _ (.supports _) _ => true
  | _ => false

/-- No provider panics that is not asked. -/
theorem not_supportPanics {trace : List (Entry ν)} (none : trace.any Entry.asksSupport = false) :
    ∀ payload, ¬ SupportPanics payload trace := by
  rintro payload ⟨id, extension, member⟩
  exact absurd rfl (List.any_eq_false.mp none _ member)

theorem Deed.mem_entriesAll {d : Deed σ ν} {node : Node} {e : Entry ν} (among : d ∈ ds)
    (member : e ∈ d.entries node) : e ∈ entriesAll node ds := by
  induction ds with
  | nil => contradiction
  | cons first rest ih =>
    rw [entriesAll, List.mem_append]
    rcases List.mem_cons.mp among with rfl | among
    · exact .inl member
    · exact .inr (ih among)

theorem Escapes.marked (h : Escapes payload ds) (node : Node) :
    SupportPanics payload (Deed.entriesAll node ds) := by
  induction h generalizing node with
  | @asked before extension inside =>
    exact ⟨node.id, extension, by simp [Deed.entriesAll_append, Deed.entriesAll, Deed.entries, Act.entries]⟩
  | @within deeds before w _ ih =>
    obtain ⟨id, extension, member⟩ := ih w.descriptor.node
    exact ⟨id, extension, Deed.mem_entriesAll (d := .visit w deeds) (by simp) (by simp [Deed.entries, member])⟩

theorem SupportPanics.mono {part trace : List (Entry ν)} (h : SupportPanics payload part)
    (among : ∀ e ∈ part, e ∈ trace) : SupportPanics payload trace := by
  obtain ⟨id, extension, member⟩ := h
  exact ⟨id, extension, among _ member⟩

theorem Deed.Everywhere.contained {d : Deed σ ν} (lawful : Everywhere (Law env) path d)
    (left : ∀ v inside, d = .visit v inside → v.leaving ≠ .stuck) :
    Everywhere (fun path v inside => Law env path v inside ∧ Contained v inside) path d := by
  induction lawful with
  | act => exact .act
  | report => exact .report
  | visit law lawful ih =>
    have left := left _ _ rfl
    refine .visit ⟨law, law.contained lawful left⟩ fun d member => ih d member ?_
    rintro w deeds rfl
    exact law.unstuck left (w, deeds) (visit_mem_visits member)

/-- Where no provider panics in such a way, every node comes to its end. -/
theorem Deed.Everywhere.complete {d : Deed σ ν} {P : List (Place σ ν) → Visit σ ν → List (Deed σ ν) → Prop}
    (contained : Everywhere (fun path v inside => P path v inside ∧ Contained v inside) path d) (node : Node)
    (free : ∀ payload, ¬ SupportPanics payload (d.entries node)) :
    Everywhere (fun path v inside => P path v inside ∧ v.leaving = .ended ∧ Complete v inside) path d := by
  induction contained generalizing node with
  | act => exact .act
  | report => exact .report
  | @visit path v inside law _ ih =>
    have among (e : Entry ν) (member : e ∈ Deed.entriesAll v.descriptor.node inside) :
        e ∈ (Deed.visit v inside).entries node := by simp [Deed.entries, member]
    have free (payload : PanicPayload) :
        ¬ SupportPanics payload (Deed.entriesAll v.descriptor.node inside) :=
      fun panics => free payload (panics.mono among)
    refine .visit ⟨law.1, ?_⟩ fun d member => ih d member v.descriptor.node fun payload panics =>
      free payload (panics.mono fun _ => Deed.mem_entriesAll member)
    rcases law.2 with ⟨ended, complete, _⟩ | ⟨payload, _, escapes⟩
    · exact ⟨ended, complete⟩
    · exact absurd (escapes.marked _) (free payload)

theorem Run.halt_eq_none {run : Run σ ν} (h : run.leaving = .ended) : run.halt = none := by
  unfold Run.leaving at h
  split at h
  · assumption
  · rename_i halt _
    cases halt <;> contradiction

section
variable {c : Configuration} {extensions : List (Declared σ ν)} {tree : TestTree σ ν} {user : σ}
  {run : Run σ ν}

/-- Every node comes to its end but those that a panic of a provider leaves which is asked for its support.
Only such a panic ends a run, and where there is none every node comes to its end. -/
theorem panics_contained (executed : execute c extensions tree user = .ok run)
    (left : run.leaving ≠ .stuck) :
    run.Always c extensions tree (fun _ _ => Contained) ∧
    ((∀ payload, ¬ SupportPanics payload run.trace) → run.halt = none ∧
      run.Always c extensions tree fun _ _ v inside => v.leaving = .ended ∧ Complete v inside) ∧
    ∀ payload, run.halt = some (.panicked payload) → SupportPanics payload run.trace := by
  obtain ⟨registry, v, inside, registered, told, lawful⟩ := lawful_history executed
  have contained := lawful.contained fun w deeds same => by
    obtain ⟨rfl, rfl⟩ := Deed.visit.inj same
    rwa [told.leaving]
  refine ⟨⟨registry, v, inside, registered, told, contained⟩, fun free => ?_, fun payload panicked => ?_⟩
  · have complete := contained.complete default fun payload => told.trace ▸ free payload
    have ended : v.leaving = .ended := by
      cases complete with
      | visit law _ => exact law.2.1
    exact ⟨Run.halt_eq_none (told.leaving ▸ ended), registry, v, inside, registered, told, complete⟩
  · have torn : v.leaving = .torn payload := by
      rw [told.leaving, Run.leaving, panicked]
      rfl
    rw [told.trace]
    refine ((lawful.escapes v inside rfl torn).marked v.descriptor.node).mono fun e member => ?_
    simp [Deed.entries, member]

theorem panics_contained_sample : ∃ run, execute .empty [] Blueprint.sample.build () = .ok run ∧
    run.leaving ≠ .stuck ∧ run.events.map (·.displayName) = Blueprint.sampleNames ∧
    run.Always .empty [] Blueprint.sample.build (fun _ _ => Contained) := by
  obtain ⟨run, executed, halted, names⟩ := Blueprint.sample_executed
  have left : run.leaving ≠ .stuck := by simp [Run.leaving, halted]
  exact ⟨run, executed, left, names, (panics_contained executed left).1⟩

end

end TestEngine

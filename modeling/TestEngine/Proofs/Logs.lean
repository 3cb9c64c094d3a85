import TestEngine.Proofs.Conduct

/-! What listeners are told of a visit: its own start and end, or that it is skipped, and in between or
behind that what they are told of the visits inside. -/
namespace TestEngine
variable {σ ν : Type}

namespace EventKind

def isEntry : EventKind → Bool
  | .entry _ => true
  | _ => false

end EventKind

/-- The events of a trace that tell how nodes fare. -/
def loggedIn (trace : List (Entry ν)) : List Event := (eventsOf trace).filter (!·.kind.isEntry)

@[simp] theorem loggedIn_nil : loggedIn ([] : List (Entry ν)) = [] := rfl

@[simp] theorem loggedIn_append (xs ys : List (Entry ν)) :
    loggedIn (xs ++ ys) = loggedIn xs ++ loggedIn ys := by
  simp [loggedIn, eventsOf]

@[simp] theorem loggedIn_step (id : UniqueId) (s : Step) (phase : Phase) (rest : List (Entry ν)) :
    loggedIn (.step id s phase :: rest) = loggedIn rest := rfl

namespace Act

mutual
theorem logged (id : UniqueId) : (a : Act ν) → loggedIn (a.entries id) = []
  | .note n => rfl
  | .published node values => rfl
  | .step s inside fault => by simp [entries, loggedAll id inside]
  | .cut s inside => by simp [entries, loggedAll id inside]
theorem loggedAll (id : UniqueId) : (as : List (Act ν)) → loggedIn (entriesAll id as) = []
  | [] => rfl
  | a :: as => by simp [entriesAll, logged id a, loggedAll id as]
end

end Act

namespace Deed

def log (node : Node) (d : Deed σ ν) : List Event := loggedIn (d.entries node)

def logAll (node : Node) (ds : List (Deed σ ν)) : List Event := loggedIn (entriesAll node ds)

/-- The visits that are made directly inside, each with what happens in it. -/
def visits (ds : List (Deed σ ν)) : List (Visit σ ν × List (Deed σ ν)) :=
  ds.filterMap fun
    | .visit v inside => some (v, inside)
    | _ => none

/-- What listeners are told of the visits inside. -/
def logInside (ds : List (Deed σ ν)) : List Event :=
  (visits ds).flatMap fun (v, inside) => log default (.visit v inside)

variable {node : Node} {ds es : List (Deed σ ν)}

@[simp] theorem logAll_nil : logAll node ([] : List (Deed σ ν)) = [] := rfl

@[simp] theorem logAll_cons (d : Deed σ ν) : logAll node (d :: ds) = log node d ++ logAll node ds := by
  simp [logAll, log, entriesAll]

@[simp] theorem logAll_append : logAll node (ds ++ es) = logAll node ds ++ logAll node es := by
  simp [logAll, entriesAll_append]

@[simp] theorem log_act (a : Act ν) : log node (.act a : Deed σ ν) = [] := a.logged node.id

@[simp] theorem log_report (r : Report) : log node (.report r : Deed σ ν) = [.of node r.kind] := by
  cases r <;> rfl

@[simp] theorem log_visit (v : Visit σ ν) :
    log node (.visit v ds) = loggedIn v.announcement ++ logAll v.descriptor.node ds := by
  have opening : loggedIn v.opening = [] := by
    unfold Visit.opening
    split <;> rfl
  have closing : loggedIn v.closing = [] := by
    unfold Visit.closing
    split
    · split <;> rfl
    · rfl
    · rfl
  simp [log, logAll, entries, opening, closing]

@[simp] theorem visits_append : visits (ds ++ es) = visits ds ++ visits es := List.filterMap_append

@[simp] theorem visits_nil : visits ([] : List (Deed σ ν)) = [] := rfl

@[simp] theorem visits_act (a : Act ν) : visits (.act a :: ds) = visits ds := rfl

@[simp] theorem visits_acts (acts : List (Act ν)) : visits (acts.map (.act (σ := σ))) = [] := by
  induction acts with
  | nil => rfl
  | cons a acts ih => exact ih

@[simp] theorem visits_report (r : Report) : visits (.report r :: ds) = visits ds := rfl

@[simp] theorem visits_visit (v : Visit σ ν) (inside : List (Deed σ ν)) :
    visits (.visit v inside :: ds) = (v, inside) :: visits ds := rfl

@[simp] theorem logInside_append : logInside (ds ++ es) = logInside ds ++ logInside es := by
  simp [logInside]

@[simp] theorem logInside_nil : logInside ([] : List (Deed σ ν)) = [] := rfl

@[simp] theorem logInside_act (a : Act ν) : logInside (.act a :: ds) = logInside ds := rfl

@[simp] theorem logInside_report (r : Report) : logInside (.report r :: ds) = logInside ds := rfl

@[simp] theorem logInside_visit (v : Visit σ ν) (inside : List (Deed σ ν)) :
    logInside (.visit v inside :: ds) = log default (.visit v inside) ++ logInside ds := rfl

/-- None of the deeds is a report of the node itself. -/
def Plain (ds : List (Deed σ ν)) : Prop := ∀ d ∈ ds, ∀ r, d ≠ .report r

namespace Plain

theorem nil : Plain ([] : List (Deed σ ν)) := fun _ => nofun

theorem act (a : Act ν) (h : Plain ds) : Plain (.act a :: ds) := fun d member => by
  rcases List.mem_cons.mp member with rfl | member
  · exact nofun
  · exact h d member

theorem visit (v : Visit σ ν) (inside : List (Deed σ ν)) (h : Plain ds) : Plain (.visit v inside :: ds) :=
  fun d member => by
    rcases List.mem_cons.mp member with rfl | member
    · exact nofun
    · exact h d member

theorem append (first : Plain ds) (second : Plain es) : Plain (ds ++ es) := fun d member =>
  (List.mem_append.mp member).elim (first d) (second d)

theorem logged (h : Plain ds) : logAll node ds = logInside ds := by
  induction ds with
  | nil => rfl
  | cons d ds ih =>
    have rest := ih fun d member => h d (by simp [member])
    cases d with
    | act a => simpa using rest
    | report r => exact absurd rfl (h _ (by simp) r)
    | visit v inside => simpa using rest

theorem of_untilFailure {plan : List (Step → Prop)} (h : UntilFailure plan ds) : Plain ds := by
  induction h with
  | nil => exact nil
  | failed _ => exact nil.act _
  | succeeded _ _ ih => exact ih.act _

theorem of_inTurn {plan : List (Step → Prop)} (h : InTurn plan ds) : Plain ds := by
  induction h with
  | nil => exact nil
  | step _ _ ih => exact ih.act _

theorem of_when {condition : Prop} {P : List (Deed σ ν) → Prop} (h : When condition P ds)
    (plain : P ds → Plain ds) : Plain ds := by
  by_cases held : condition
  · exact plain (h.held held)
  · rw [h.failed held]
    exact nil

theorem of_visits {trees : List (TestTree σ ν)} {m : Manner} {left : Leaving → Prop}
    (h : List.Forall₂ (Visits m left) trees ds) : Plain ds := by
  induction h with
  | nil => exact nil
  | cons visits _ ih =>
    obtain ⟨v, inside, rfl, _⟩ := visits
    exact ih.visit v inside

theorem of_numbered {parent : UniqueId} (h : Numbered parent low high ds) : Plain ds := by
  induction h with
  | nil => exact nil
  | act _ ih => exact ih.act _
  | visit _ _ _ _ _ ih => exact ih.visit _ _

theorem of_childrenExecuted {settings : Settings} {place : Place σ ν}
    (h : ChildrenExecuted settings place ds) : Plain ds := by
  obtain ⟨sameThread, concurrent, rfl, first, second⟩ := h
  exact (of_visits first).append (of_visits second)

theorem of_leafBody {path : List (Place σ ν)} {d : Descriptor σ ν} {body : List (Deed σ ν) → Prop}
    (h : leafBody? path d = some body) (held : body ds) : Plain ds := by
  have method {m : String} (h : MethodBody m ds) : Plain ds := by
    obtain ⟨inst, inside, fault, rfl⟩ := h
    exact nil.act _
  unfold leafBody? at h
  split at h
  · cases h
    exact method held
  · cases h
    obtain ⟨inst, inside, fault, expansion, high, rfl, _, numbered⟩ := held
    exact (of_numbered numbered).act _
  · obtain ⟨t, _, rfl⟩ := Option.map_eq_some_iff.mp h
    exact method held
  · contradiction
  · contradiction
  · contradiction

theorem of_leafOrder {r : Registry (Extension σ ν)} {body : List (Deed σ ν) → Prop} {p : LeafParts σ ν}
    (h : LeafOrder r body p) (bodily : ∀ ds, body ds → Plain ds) : Plain p.deeds := by
  have first := of_untilFailure h.instantiation
  have second := of_when h.beforeEach of_untilFailure
  have third := of_when h.beforeExecution of_untilFailure
  have fourth := of_when h.body (bodily _)
  have fifth := of_when h.afterExecution of_inTurn
  have sixth := of_when h.afterEach of_inTurn
  exact ((((((first.append second).append third).append fourth).append fifth).append sixth).append
    (of_inTurn h.farewell))

theorem of_classOrder {settings : Settings} {place : Place σ ν} {c : TestClass σ ν} {p : ClassParts σ ν}
    (h : ClassOrder settings place c p) : Plain p.deeds := by
  have children : Plain p.children := by
    match outcome : raised (p.setUp ++ p.beforeAll ++ p.beforeHooks) with
    | [] => exact of_childrenExecuted (h.children outcome)
    | [e] => exact of_visits (h.childrenSkipped e outcome)
    | _ :: _ :: _ =>
      have several := h.oneFailure
      rw [outcome] at several
      simp at several
  have first := of_untilFailure h.setUp
  have second := of_when h.beforeAll of_untilFailure
  have third := of_when h.beforeHooks of_untilFailure
  have fifth := of_when h.afterHooks of_inTurn
  have sixth := of_when h.afterAll of_inTurn
  exact ((((((first.append second).append third).append children).append fifth).append sixth).append
    (of_inTurn h.farewell))

theorem of_course {settings : Settings} {path : List (Place σ ν)} {place : Place σ ν}
    (h : Course settings path place ds) : Plain ds := by
  cases h with
  | leaf leafy order => exact of_leafOrder order fun _ => of_leafBody leafy
  | testClass _ order => exact of_classOrder order
  | template _ course =>
    obtain ⟨high, numbered⟩ := course
    exact of_numbered numbered
  | container _ _ executed => exact of_childrenExecuted executed

theorem of_childrenTorn {payload : PanicPayload} {below : List (TestTree σ ν)}
    (h : ChildrenTorn payload below ds) : Plain ds := by
  obtain ⟨before, _, _, rfl, ended, _, v, inside, rfl, _⟩ := h
  refine append (fun d member => ?_) (nil.visit v inside)
  obtain ⟨_, _, w, within, rfl, _⟩ := ended d member
  exact nofun

theorem of_courseTorn {settings : Settings} {path : List (Place σ ν)} {place : Place σ ν}
    {payload : PanicPayload} (h : CourseTorn settings path place payload ds) : Plain ds := by
  cases h with
  | testClass _ torn =>
    have first := of_untilFailure torn.setUp
    have second := of_when torn.beforeAll of_untilFailure
    have third := of_when torn.beforeHooks of_untilFailure
    have whole := ((first.append second).append third).append (of_childrenTorn torn.children)
    simpa [ClassParts.deeds, torn.afterHooks, torn.afterAll, torn.farewell] using whole
  | template _ torn =>
    obtain ⟨acts, extension, inside, rfl⟩ := torn
    refine append (fun d member => ?_) (nil.act _)
    obtain ⟨a, _, rfl⟩ := List.mem_map.mp member
    exact nofun
  | container _ _ torn => exact of_childrenTorn torn

end Plain

theorem PassedOver.not_act {reason : String} {trees : List (TestTree σ ν)} (h : PassedOver reason trees ds)
    (a : Act ν) : .act a ∉ ds := by
  intro member
  induction h with
  | nil => contradiction
  | cons visits _ ih =>
    obtain ⟨v, inside, rfl, _⟩ := visits
    exact ih (by simpa using member)

theorem InTurn.visits {plan : List (Step → Prop)} (h : InTurn plan ds) : Deed.visits ds = [] := by
  induction h with
  | nil => rfl
  | step _ _ ih => exact ih

theorem UntilFailure.visits {plan : List (Step → Prop)} (h : UntilFailure plan ds) : Deed.visits ds = [] := by
  induction h with
  | nil | failed => rfl
  | succeeded _ _ ih => exact ih

theorem InTurn.logInside {plan : List (Step → Prop)} (h : InTurn plan ds) : Deed.logInside ds = [] := by
  rw [Deed.logInside, h.visits, List.flatMap_nil]

end Deed

open Deed

section
variable {place : Place σ ν} {ds : List (Deed σ ν)}

theorem Finish.logged (h : Finish place ds) : ∃ r,
    logAll place.descriptor.node ds = [.of place.descriptor.node (.finished r)] ∧ logInside ds = [] := by
  obtain ⟨inside, fault, told, r, rfl, turns⟩ := h
  refine ⟨r, ?_, ?_⟩
  · simp [(Plain.of_inTurn turns).logged, turns.logInside, Report.kind]
  · simp [turns.logInside]

theorem Finish.unskipped (h : Finish place ds) (reason : String) : .report (.skipped reason) ∉ ds := by
  obtain ⟨inside, fault, told, r, rfl, turns⟩ := h
  intro member
  have among : .report (.skipped reason) ∈ told := by simpa using member
  exact Plain.of_inTurn turns _ among _ rfl

theorem Skip.report_unique {reason : String} (h : Skip place reason ds) {r : Report} (member : .report r ∈ ds) :
    r = .skipped reason := by
  obtain ⟨told, skips, inside, fault, rfl, turns, passed⟩ := h
  rcases List.mem_append.mp member with among | closing
  · rcases List.mem_append.mp among with among | below
    · rcases List.mem_cons.mp among with same | among
      · exact Deed.report.inj same
      · exact absurd rfl (Plain.of_inTurn turns _ among r)
    · exact absurd rfl (Plain.of_visits passed _ below r)
  · simp at closing

/-- A node that is reported as skipped does nothing else, but that its conditions may have been asked before. -/
theorem Conduct.skip {env : Environment σ ν} {path : List (Place σ ν)} {v : Visit σ ν} {reason : String}
    (h : Conduct env path v ds) (reported : .report (.skipped reason) ∈ ds) :
    ∃ asked skip, ds = asked ++ skip ∧ Skip v.place reason skip ∧
      (v.manner = .executed ∧ (∃ conditions, asked = admission conditions none) ∨
        v.manner = .passedOver reason ∧ asked = []) := by
  have notStarted {course finish : List (Deed σ ν)} (plain : Plain course) (finished : Finish v.place finish) :
      .report (.skipped reason) ∉ .report .started :: course ++ finish := by
    intro member
    rcases List.mem_append.mp member with among | among
    · rcases List.mem_cons.mp among with same | among
      · simp at same
      · exact plain _ among _ rfl
    · exact finished.unskipped reason among
  cases h with
  | refused _ _ skips finish =>
    exact absurd (by simpa using reported) (notStarted (Plain.of_visits skips) finish)
  | disabled manner skip =>
    have same := skip.report_unique (r := .skipped reason) (by simpa [admission] using reported)
    cases same
    exact ⟨_, _, rfl, skip, .inl ⟨manner, _, rfl⟩⟩
  | unclear _ skips finish =>
    exact absurd (by simpa [admission] using reported) (notStarted (Plain.of_visits skips) finish)
  | entered _ course finish =>
    exact absurd (by simpa [admission] using reported) (notStarted (Plain.of_course course) finish)
  | passedOver manner skip =>
    cases skip.report_unique reported
    exact ⟨[], _, rfl, skip, .inr ⟨manner, rfl⟩⟩
  | made _ numbered finish => exact absurd reported (notStarted (Plain.of_numbered numbered) finish)

theorem Conduct.unskipped {env : Environment σ ν} {path : List (Place σ ν)} {v : Visit σ ν}
    (h : Conduct env path v ds) (started : .report .started ∈ ds) (reason : String) :
    .report (.skipped reason) ∉ ds := by
  intro reported
  obtain ⟨asked, skip, rfl, skipped, asking⟩ := h.skip reported
  rcases List.mem_append.mp started with before | among
  · rcases asking with ⟨_, conditions, rfl⟩ | ⟨_, rfl⟩ <;> simp [admission] at before
  · exact Report.noConfusion (skipped.report_unique among)

theorem Skip.logged {reason : String} (h : Skip place reason ds) :
    logAll place.descriptor.node ds = .of place.descriptor.node (.skipped reason) :: logInside ds := by
  obtain ⟨told, skips, inside, fault, rfl, turns, passed⟩ := h
  simp [(Plain.of_inTurn turns).logged, (Plain.of_visits passed).logged, Report.kind]

/-- A visit that comes to its end is told of by a start, the visits inside, and a result; or by a skip
and the visits inside. -/
theorem Conduct.logged {env : Environment σ ν} {path : List (Place σ ν)} {v : Visit σ ν}
    (h : Conduct env path v ds) :
    (∃ r, logAll v.descriptor.node ds =
      .of v.descriptor.node .started :: (logInside ds ++ [.of v.descriptor.node (.finished r)])) ∨
    ∃ reason, logAll v.descriptor.node ds = .of v.descriptor.node (.skipped reason) :: logInside ds := by
  cases h with
  | refused _ _ skips finish =>
    obtain ⟨r, last, none⟩ := finish.logged
    refine .inl ⟨r, ?_⟩
    simp [last, none, (Plain.of_visits skips).logged, Report.kind]
  | disabled _ skip =>
    rename_i reason _ _ _
    refine .inr ⟨reason, ?_⟩
    simp [admission, skip.logged]
  | unclear _ skips finish =>
    obtain ⟨r, last, none⟩ := finish.logged
    refine .inl ⟨r, ?_⟩
    simp [admission, last, none, (Plain.of_visits skips).logged, Report.kind]
  | entered _ course finish =>
    obtain ⟨r, last, none⟩ := finish.logged
    refine .inl ⟨r, ?_⟩
    simp [admission, last, none, (Plain.of_course course).logged, Report.kind]
  | passedOver _ skip => exact .inr ⟨_, skip.logged⟩
  | made _ numbered finish =>
    obtain ⟨r, last, none⟩ := finish.logged
    refine .inl ⟨r, ?_⟩
    simp [last, none, (Plain.of_numbered numbered).logged, Report.kind]

end
end TestEngine

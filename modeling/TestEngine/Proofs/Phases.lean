import TestEngine.Proofs.Executing
import TestEngine.Proofs.Logs

/-! Which phases of a node are there, whatever fails in them. A leaf that is entered comes to its end. A
class does as long as no provider below panics when it is asked for its support: that panic alone is not
contained, and it leaves all nodes above up to one that runs beside its siblings. -/
namespace TestEngine
variable {σ ν : Type} {env : Environment σ ν} {path : List (Place σ ν)} {v : Visit σ ν}
  {inside rest : List (Deed σ ν)}

open Deed

def Entered (inside rest : List (Deed σ ν)) : Prop :=
  ∃ asked, inside = admission asked none ++ .report .started :: rest

/-- What a node that is entered does, if the run does not stay within it. -/
theorem Law.entered (law : Law env path v inside) (entered : Entered inside rest)
    (left : v.leaving ≠ .stuck) :
    (v.leaving = .ended ∧ ∃ course finish, rest = course ++ finish ∧
      Course env.settings path v.place course ∧ Finish v.place finish) ∨
    ∃ payload, v.leaving = .torn payload ∧ CourseTorn env.settings path v.place payload rest := by
  obtain ⟨asked, same⟩ := entered
  cases leaving : v.leaving with
  | stuck => exact absurd leaving left
  | torn payload =>
    obtain ⟨_, _, course, first, torn⟩ := law.torn payload leaving
    rw [same] at first
    simp only [admission, List.cons_append, List.nil_append, List.cons.injEq, true_and] at first
    exact .inr ⟨payload, rfl, first.2 ▸ torn⟩
  | ended =>
    cases law.ended leaving with
    | refused | unclear | made => simp [admission] at same
    | disabled _ skip | passedOver _ skip =>
      obtain ⟨told, skips, closing, fault, rfl, _⟩ := skip
      simp [admission] at same
    | entered _ course finish =>
      simp only [admission, List.cons_append, List.nil_append, List.cons.injEq, true_and] at same
      exact .inl ⟨rfl, _, _, same.2.symm, course, finish⟩

/-- A provider panics when it is asked for its support, in the node or in one below, and nothing comes
behind that. -/
inductive Escapes (payload : PanicPayload) : List (Deed σ ν) → Prop where
  | asked : Escapes payload (before ++ [.act (.step (.supports extension) asked (some (.panic payload)))])
  | within : Escapes payload deeds → Escapes payload (before ++ [.visit w deeds])

theorem Escapes.unique {first second : PanicPayload} {deeds : List (Deed σ ν)}
    (h : Escapes first deeds) (other : Escapes second deeds) : first = second := by
  induction h with
  | @asked before extension asked =>
    generalize same : before ++ [_] = deeds at other
    cases other <;> simp_all
  | @within deeds before w _ ih =>
    generalize same : before ++ [_] = last at other
    cases other with
    | asked => simp at same
    | within below =>
      obtain ⟨_, rfl⟩ := Deed.visit.inj (List.singleton_inj.mp (List.append_inj_right' same rfl))
      exact ih below

theorem ChildrenTorn.last {below : List (TestTree σ ν)} {deeds : List (Deed σ ν)}
    (h : ChildrenTorn payload below deeds) :
    ∃ before v inside, deeds = before ++ [.visit v inside] ∧ v.leaving = .torn payload := by
  obtain ⟨before, _, _, rfl, _, _, v, inside, rfl, _, _, _, left⟩ := h
  exact ⟨before, v, inside, rfl, left⟩

/-- What a panic leaves ends with the panic, or with a node that it leaves. -/
theorem CourseTorn.last {settings : Settings} {place : Place σ ν} {course : List (Deed σ ν)}
    (h : CourseTorn settings path place payload course) :
    (∃ before extension asked,
      course = before ++ [.act (.step (.supports extension) asked (some (.panic payload)))]) ∨
    ∃ before v inside, course = before ++ [.visit v inside] ∧ v.leaving = .torn payload := by
  cases h with
  | testClass _ torn =>
    rename_i c p _
    obtain ⟨before, v, inside, last, left⟩ := torn.children.last
    refine .inr ⟨p.setUp ++ p.beforeAll ++ p.beforeHooks ++ before, v, inside, ?_, left⟩
    simp [ClassParts.deeds, last, torn.afterHooks, torn.afterAll, torn.farewell]
  | template _ torn =>
    obtain ⟨acts, extension, asked, rfl⟩ := torn
    exact .inl ⟨_, extension, asked, rfl⟩
  | container _ _ torn => exact .inr torn.last

/-- The panic that leaves a node comes from a provider there or below. -/
theorem Deed.Everywhere.escapes {d : Deed σ ν} (lawful : Everywhere (Law env) path d) :
    ∀ v inside, d = .visit v inside → v.leaving = .torn payload → Escapes payload inside := by
  induction lawful with
  | act | report =>
    intro v inside same
    simp at same
  | visit law _ ih =>
    intro v inside same left
    obtain ⟨rfl, rfl⟩ := Deed.visit.inj same
    obtain ⟨_, asked, course, rfl, torn⟩ := law.torn payload left
    rcases torn.last with ⟨before, extension, inside, rfl⟩ | ⟨before, w, below, rfl, left⟩
    · rw [← List.cons_append, ← List.append_assoc]
      exact .asked
    · have escapes := ih (.visit w below) (by simp) w below rfl left
      rw [← List.cons_append, ← List.append_assoc]
      exact .within escapes

/-- What comes to its end does so with a report of the node, or by closing its store. -/
theorem Conduct.last (h : Conduct env path v inside) :
    (∃ before r, inside = before ++ [.report r]) ∨
    ∃ before closing fault, inside = before ++ [.act (.step .closeStore closing fault)] := by
  have finished {before finish : List (Deed σ ν)} (h : Finish v.place finish) :
      ∃ more r, before ++ finish = more ++ [.report r] := by
    obtain ⟨closing, fault, told, r, rfl, _⟩ := h
    exact ⟨before ++ .act (.step .closeStore closing fault) :: told, .finished r, by simp⟩
  have skipped {reason : String} {before skip : List (Deed σ ν)} (h : Skip v.place reason skip) :
      ∃ more closing fault, before ++ skip = more ++ [.act (.step .closeStore closing fault)] := by
    obtain ⟨told, skips, closing, fault, rfl, _⟩ := h
    exact ⟨before ++ .report (.skipped reason) :: (told ++ skips), closing, fault, by simp⟩
  cases h with
  | refused _ _ _ finish | unclear _ _ finish | entered _ _ finish | made _ _ finish =>
    exact .inl (finished finish)
  | disabled _ skip => exact .inr (skipped skip)
  | passedOver _ skip => exact .inr (List.nil_append inside ▸ skipped skip)

theorem Conduct.contains (h : Conduct env path v inside) : ¬ Escapes payload inside := by
  intro escapes
  have last : ∃ before d, inside = before ++ [d] ∧ ((∃ w below, d = .visit w below) ∨
      ∃ extension asked fault, d = .act (.step (.supports extension) asked fault)) := by
    cases escapes with
    | asked => exact ⟨_, _, rfl, .inr ⟨_, _, _, rfl⟩⟩
    | within => exact ⟨_, _, rfl, .inl ⟨_, _, rfl⟩⟩
  obtain ⟨before, d, rfl, kind⟩ := last
  rcases h.last with ⟨_, r, same⟩ | ⟨_, closing, fault, same⟩ <;>
    obtain rfl := List.singleton_inj.mp (List.append_inj_right' same rfl) <;>
    simp at kind

theorem logAll_passedOver {reason : String} {trees : List (TestTree σ ν)} {deeds : List (Deed σ ν)}
    {node : Node} (h : PassedOver reason trees deeds)
    (each : ∀ t ∈ trees, ∀ d ∈ deeds, Visits (.passedOver reason) (· = .ended) t d →
      log node d = t.preorder.map fun d => .of d.node (.skipped reason)) :
    logAll node deeds = (TestTree.preorderAll trees).map fun d => .of d.node (.skipped reason) := by
  induction h with
  | nil => rfl
  | cons visits _ ih =>
    rw [logAll_cons, TestTree.preorderAll, List.map_append, each _ (by simp) _ (by simp) visits,
      ih fun t member d among => each t (by simp [member]) d (by simp [among])]

theorem Law.skip (law : Law env path v inside) (manner : v.manner = .passedOver reason) (left : v.leaving = .ended) :
    Skip v.place reason inside := by
  cases law.ended left with
  | refused executed | disabled executed | unclear executed | entered executed | made executed =>
    rw [manner] at executed
    contradiction
  | passedOver same skip =>
    cases manner.symm.trans same
    exact skip

/-- Of a node that is passed over and of all below listeners are told that they are skipped, with the
reason, and nothing else. -/
theorem log_passedOver (t : TestTree σ ν) {reason : String} : ∀ (path : List (Place σ ν)) (d : Deed σ ν)
    (node : Node), Everywhere (Law env) path d → Visits (.passedOver reason) (· = .ended) t d →
    log node d = t.preorder.map fun d => .of d.node (.skipped reason) := by
  induction t using TestTree.induct with
  | node d cs ih =>
    rintro path _ node lawful ⟨v, inside, rfl, root, manner, announced, left⟩
    obtain ⟨rfl, rfl⟩ := TestTree.node.inj root
    have skip : Skip v.place reason inside := by
      cases lawful with
      | visit law _ => exact law.skip manner left
    obtain ⟨told, skips, closing, fault, rfl, turns, passed⟩ := skip
    have below : logAll v.descriptor.node skips =
        (TestTree.preorderAll v.place.below).map fun d => .of d.node (.skipped reason) := by
      refine logAll_passedOver passed fun t member d among visits => ?_
      cases lawful with
      | visit _ lawful => exact ih t member _ d _ (lawful d (by simp [among])) visits
    simp [Visit.announcement, announced, (Plain.of_inTurn turns).logged, turns.logInside, below, Report.kind,
      TestTree.preorder]

/-- A leaf that is entered takes the steps of its phases in their order, and comes to its end. -/
def LeafInOrder (env : Environment σ ν) (path : List (Place σ ν)) (v : Visit σ ν)
    (inside : List (Deed σ ν)) : Prop :=
  ∀ body rest, leafBody? path v.descriptor = some body → Entered inside rest → v.leaving ≠ .stuck →
    v.leaving = .ended ∧ ∃ p finish, rest = p.deeds ++ finish ∧
      LeafOrder (registryBelow env path v.descriptor) body p ∧ Finish v.place finish

/-- A class that is entered takes the steps of its phases in their order, and comes to its end, if no
panic escapes below it. If one does, the class goes no further than to that. -/
def ClassInOrder (env : Environment σ ν) (v : Visit σ ν) (inside : List (Deed σ ν)) : Prop :=
  ∀ c rest, v.descriptor.role = .testClass c → Entered inside rest → v.leaving ≠ .stuck →
    ((∀ payload, ¬ Escapes payload inside) → v.leaving = .ended ∧ ∃ p finish, rest = p.deeds ++ finish ∧
      ClassOrder env.settings v.place c p ∧ Finish v.place finish ∧
      ∀ e, raised (p.setUp ++ p.beforeAll ++ p.beforeHooks) = [e] →
        logAll v.descriptor.node p.children = (TestTree.preorderAll v.place.below).map
          fun d => .of d.node (.skipped ("Container setup failed: " ++ e.message))) ∧
    ∀ payload, Escapes payload inside → v.leaving = .torn payload ∧
      ∃ p, rest = p.deeds ∧ ClassTorn env.settings v.place c payload p

theorem Law.leafInOrder (law : Law env path v inside) : LeafInOrder env path v inside := by
  intro body rest leafy entered left
  rcases law.entered entered left with ⟨ended, course, finish, rfl, did, finished⟩ | ⟨_, _, torn⟩
  · refine ⟨ended, ?_⟩
    rw [← law.registry]
    cases did with
    | leaf same order =>
      cases Option.some.inj (same.symm.trans leafy)
      exact ⟨_, finish, rfl, order, finished⟩
    | testClass role | template role => simp [leafBody?, role] at leafy
    | container none => simp [none] at leafy
  · simp [torn.leafBody?_eq_none] at leafy

theorem Law.classInOrder (law : Law env path v inside)
    (lawful : ∀ d ∈ inside, Everywhere (Law env) (v.place :: path) d) : ClassInOrder env v inside := by
  intro c rest role entered left
  rcases law.entered entered left with ⟨ended, course, finish, rfl, did, finished⟩ | ⟨payload, left, torn⟩
  · refine ⟨fun _ => ⟨ended, ?_⟩, fun payload escapes => absurd escapes (law.ended ended).contains⟩
    cases did with
    | testClass same order =>
      cases Role.testClass.inj (same.symm.trans role)
      refine ⟨_, finish, rfl, order, finished, fun e failed => ?_⟩
      refine logAll_passedOver (order.childrenSkipped e failed) fun t _ d among visits => ?_
      refine log_passedOver t _ d _ (lawful d ?_) visits
      obtain ⟨asked, rfl⟩ := entered
      simp [ClassParts.deeds, among]
    | leaf same => simp [leafBody?, role] at same
    | template same => simp [role] at same
    | container _ kind => simp [role] at kind
  · have escapes : Escapes payload inside :=
      (Deed.Everywhere.visit law lawful).escapes v inside rfl left
    refine ⟨fun none => absurd escapes (none payload), fun payload escaped => ?_⟩
    cases escaped.unique escapes
    refine ⟨left, ?_⟩
    cases torn with
    | testClass same torn =>
      cases Role.testClass.inj (same.symm.trans role)
      exact ⟨_, rfl, torn⟩
    | template same => simp [role] at same
    | container _ kind => simp [role] at kind

section
variable {c : Configuration} {extensions : List (Declared σ ν)} {tree : TestTree σ ν} {user : σ}
  {run : Run σ ν}

/-- The result of every node tells the errors of its own steps and no others. -/
theorem results_sum_up (executed : execute c extensions tree user = .ok run) :
    run.Always c extensions tree fun _ _ _ inside =>
      ∀ r, .report (.finished r) ∈ inside → r.SumsUp (raised inside) :=
  Run.always executed fun law _ r reported => (law.result r reported).2

theorem results_sum_up_sample : ∃ run, execute .empty [] Blueprint.sample.build () = .ok run ∧
    run.events.map (·.displayName) = Blueprint.sampleNames ∧
    run.Always .empty [] Blueprint.sample.build fun _ _ _ inside =>
      ∀ r, .report (.finished r) ∈ inside → r.SumsUp (raised inside) := by
  obtain ⟨run, executed, _, names⟩ := Blueprint.sample_executed
  exact ⟨run, executed, names, results_sum_up executed⟩

/-- In every run each leaf that is entered takes the steps of its phases in their order: those before its body up to the
first failure, and those behind it all, from where the way in has come to. -/
theorem leaves_in_order (executed : execute c extensions tree user = .ok run) :
    run.Always c extensions tree LeafInOrder :=
  Run.always executed fun law _ => law.leafInOrder

theorem leaves_in_order_sample : ∃ run, execute .empty [] Blueprint.sample.build () = .ok run ∧
    run.events.map (·.displayName) = Blueprint.sampleNames ∧
    run.Always .empty [] Blueprint.sample.build LeafInOrder := by
  obtain ⟨run, executed, _, names⟩ := Blueprint.sample_executed
  exact ⟨run, executed, names, leaves_in_order executed⟩

/-- In every run each class that is entered takes the steps of its phases in their order, and runs or skips its children
by whether it could be set up. Only a panic of a provider that is asked for its support, below the class, keeps it from
its end. -/
theorem classes_in_order (executed : execute c extensions tree user = .ok run) :
    run.Always c extensions tree fun env _ => ClassInOrder env :=
  Run.always executed Law.classInOrder

theorem classes_in_order_sample : ∃ run, execute .empty [] Blueprint.sample.build () = .ok run ∧
    run.events.map (·.displayName) = Blueprint.sampleNames ∧
    run.Always .empty [] Blueprint.sample.build fun env _ => ClassInOrder env := by
  obtain ⟨run, executed, _, names⟩ := Blueprint.sample_executed
  exact ⟨run, executed, names, classes_in_order executed⟩

end

end TestEngine

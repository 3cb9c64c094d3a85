import TestEngine.Proofs.Containment
import TestEngine.Proofs.Indices

/-! The invocations of a template. Elements are numbered across the streams of its providers, and those that
are selected are executed under their numbers, each before the next element is drawn. No more elements are
drawn than the selection needs, and none behind an error. -/
namespace TestEngine
variable {σ ν α : Type} {env : Environment σ ν} {path : List (Place σ ν)} {place : Place σ ν}
  {t : Template σ ν} {ds es : List (Deed σ ν)}

open Deed Execution

/-- Elements behind some others with their numbers, those that the template selects. -/
def Template.chosen (t : Template σ ν) (drawn : Nat) (xs : List α) : List (α × Nat) :=
  (xs.zipIdx (drawn + 1)).filter fun x => t.selection.all (·.contains x.2)

theorem Template.chosen_append (t : Template σ ν) (drawn : Nat) (xs ys : List α) :
    t.chosen drawn (xs ++ ys) = t.chosen drawn xs ++ t.chosen (drawn + xs.length) ys := by
  unfold chosen
  rw [List.zipIdx_append, List.filter_append, Nat.add_right_comm]

def IsInvocation (template : Descriptor σ ν) (x : TemplateInvocation (Extension σ ν) × Nat)
    (visited : Visit σ ν × List (Deed σ ν)) : Prop :=
  visited.1.MadeAs (dynamicDescriptor template "test-template-invocation" x.2 x.1.displayName .test x.1.extensions)
    .executed

section
variable {limit : Option Nat} {template : Descriptor σ ν} {source : Source σ ν (TemplateInvocation (Extension σ ν))}
  {stream : Stream σ ν (TemplateInvocation (Extension σ ν))} {xs : List (TemplateInvocation (Extension σ ν))}
  {ps : List (String × InvocationProvider σ ν (Extension σ ν))}

theorem Taken.invocations (h : Taken limit (Invoked t) drawn template source ds xs error) :
    List.Forall₂ (IsInvocation template) (t.chosen drawn xs) (visits ds) := by
  induction h with
  | enough | exhausted | failed => exact .nil
  | taken _ _ _ use _ ih =>
    unfold Template.chosen at ih ⊢
    rw [List.zipIdx_cons, List.filter_cons, List.cons_append, visits_act, visits_append]
    unfold Invoked at use
    split at use
    · rename_i selected
      obtain ⟨v, inside, rfl, made⟩ := use
      rw [if_pos selected]
      exact .cons made ih
    · rename_i passedOver
      rw [if_neg passedOver, use]
      exact ih

theorem Spent.invocations (h : Spent limit (Invoked t) ds drawn template stream xs) :
    List.Forall₂ (IsInvocation template) (t.chosen drawn xs) (visits ds) := by
  cases h with
  | closed taken => simpa using taken.invocations

theorem Supplied.invocations (h : Supplied env path place t drawn ps ds xs) :
    List.Forall₂ (IsInvocation place.descriptor) (t.chosen drawn xs) (visits ds) := by
  induction h with
  | all | refused => exact .nil
  | stopped _ spent _ => exact spent.invocations
  | further _ spent _ _ ih =>
    rw [Template.chosen_append, List.cons_append, visits_act, visits_append]
    exact List.rel_append spent.invocations ih

def Deed.isDraw : Deed σ ν → Bool
  | .act (.step .draw _ _) => true
  | _ => false

/-- How many elements the node draws, those that are errors among them. -/
def Deed.draws (ds : List (Deed σ ν)) : Nat := ds.countP isDraw

namespace Deed

@[simp] theorem draws_append : draws (ds ++ es) = draws ds + draws es := List.countP_append

@[simp] theorem draws_step (d : Draw σ ν α) (user : σ) : draws (.act (d.step user) :: ds) = draws ds + 1 :=
  List.countP_cons_of_pos rfl

@[simp] theorem draws_closing (s : Stream σ ν α) (user : σ) : draws [(.act (s.closingStep user) : Deed σ ν)] = 0 :=
  rfl

@[simp] theorem draws_provide (name : String) (inside : List (Act ν)) (fault : Option Fault) :
    draws (.act (.step (.provide name) inside fault) :: ds) = draws ds := List.countP_cons_of_neg nofun

end Deed

theorem Invoked.draws {x : TemplateInvocation (Extension σ ν)} (h : Invoked t template index x ds) :
    Deed.draws ds = 0 := by
  unfold Invoked at h
  split at h
  · obtain ⟨v, inside, rfl, _⟩ := h
    rfl
  · rw [h]
    rfl

/-- Each element is drawn by a step of its own, and none beyond the limit is. -/
theorem Taken.draws (h : Taken limit (Invoked t) drawn template source ds xs error) :
    Deed.draws ds = xs.length + error.toList.length ∧ ∀ last ∈ limit, Deed.draws ds ≤ last - drawn := by
  induction h with
  | enough | exhausted => exact ⟨rfl, fun _ _ => Nat.zero_le _⟩
  | failed more => exact ⟨rfl, fun last here => Nat.sub_pos_of_lt (more last here)⟩
  | taken more _ _ use _ ih =>
    obtain ⟨count, within⟩ := ih
    rw [List.cons_append, draws_step, draws_append, use.draws, count, List.length_cons]
    refine ⟨by omega, fun last here => ?_⟩
    have := within last here
    have := more last here
    omega

theorem Spent.draws (h : Spent limit (Invoked t) ds drawn template stream xs) :
    xs.length ≤ Deed.draws ds ∧ (raised ds = [] → Deed.draws ds = xs.length) ∧
      ∀ last ∈ limit, Deed.draws ds ≤ last - drawn := by
  cases h with
  | closed taken =>
    obtain ⟨count, within⟩ := taken.draws
    have raisedByDraws := (taken.numbered fun _ _ _ => Invoked.single).2
    rw [draws_append, draws_closing, raised_append, raisedByDraws, count]
    refine ⟨by omega, fun none => ?_, fun last here => ?_⟩
    · rw [(List.append_eq_nil_iff.mp none).1]
      rfl
    · rw [Nat.add_zero, ← count]
      exact within last here

theorem Supplied.draws (h : Supplied env path place t drawn ps ds xs) :
    xs.length ≤ Deed.draws ds ∧ (raised ds = [] → Deed.draws ds = xs.length) ∧
      ∀ last ∈ t.last?, Deed.draws ds ≤ last - drawn := by
  induction h with
  | all => exact ⟨Nat.le_refl _, fun _ => rfl, fun _ _ => Nat.zero_le _⟩
  | refused => exact ⟨Nat.zero_le _, fun _ => rfl, fun _ _ => Nat.zero_le _⟩
  | stopped _ spent _ => simpa using spent.draws
  | further _ spent silent _ ih =>
    obtain ⟨_, count, within⟩ := spent.draws
    obtain ⟨atLeast, exactly, more⟩ := ih
    rw [List.cons_append, draws_provide, draws_append, count silent, List.length_append, raised_succeeded,
      raised_append, silent, List.nil_append]
    refine ⟨by omega, fun none => by rw [exactly none], fun last here => ?_⟩
    have := within last here
    have := more last here
    omega

def Deed.ClosesStream (d : Deed σ ν) : Prop := ∃ inside fault, d = .act (.step .closeStream inside fault)

/-- Behind an error there is nothing but the closing of a stream. -/
def Deed.StopsAtError (ds : List (Deed σ ν)) : Prop :=
  ds.Pairwise fun d e => d.error? ≠ none → e.ClosesStream

namespace Deed.StopsAtError

theorem behind (silent : raised ds = []) (h : StopsAtError es) : StopsAtError (ds ++ es) := by
  have none : ∀ d ∈ ds, d.error? = none := List.filterMap_eq_nil_iff.mp silent
  refine List.pairwise_append.mpr ⟨?_, h, fun d member _ _ failed => absurd (none d member) failed⟩
  exact List.Pairwise.imp_of_mem (fun member _ _ failed => absurd (none _ member) failed)
    (List.pairwise_of_forall fun _ _ => trivial)

theorem closed (h : StopsAtError ds) (closes : e.ClosesStream) : StopsAtError (ds ++ [e]) := by
  refine List.pairwise_append.mpr ⟨h, List.pairwise_singleton _ _, fun _ _ d member _ => ?_⟩
  rw [List.mem_singleton.mp member]
  exact closes

end Deed.StopsAtError

theorem Taken.stops {Use : Descriptor σ ν → Nat → α → List (Deed σ ν) → Prop} {source : Source σ ν α}
    {xs : List α} (h : Taken limit Use drawn template source ds xs error)
    (uses : ∀ i x used, Use template i x used → raised used = []) : StopsAtError ds := by
  induction h with
  | enough | exhausted => exact .nil
  | failed => exact List.pairwise_singleton _ _
  | taken _ _ value use _ ih =>
    refine .behind ?_ (ih uses)
    simp [Draw.step, value, faultOf, uses _ _ _ use]

theorem Spent.stops {Use : Descriptor σ ν → Nat → α → List (Deed σ ν) → Prop} {stream : Stream σ ν α}
    {xs : List α} (h : Spent limit Use ds drawn template stream xs)
    (uses : ∀ i x used, Use template i x used → raised used = []) : StopsAtError ds := by
  cases h with
  | closed taken => exact (taken.stops uses).closed ⟨_, _, rfl⟩

theorem Supplied.stops (h : Supplied env path place t drawn ps ds xs) : StopsAtError ds := by
  induction h with
  | all => exact .nil
  | refused => exact List.pairwise_singleton _ _
  | stopped _ spent _ =>
    exact .behind (raised_succeeded _ _ []) (spent.stops fun _ _ _ invoked => invoked.single.1)
  | further _ spent silent _ ih => exact .behind (by simpa using silent) ih

end

/-- How a template comes by its invocations and runs them. A part of its course is what its providers supply. -/
structure InvocationOrder (env : Environment σ ν) (path : List (Place σ ν)) (place : Place σ ν)
    (t : Template σ ν) (asked : List (Act ν))
    (providers : List (String × InvocationProvider σ ν (Extension σ ν))) (part : List (Deed σ ν))
    (xs : List (TemplateInvocation (Extension σ ν))) (course : List (Deed σ ν)) : Prop where
  /-- The providers are those that support the template, in the order they are registered. -/
  supporting : Enacts env (place :: path)
    (supportingProviders (place.registry.extensions .invocationProvider)) providers
    (Act.entriesAll place.descriptor.id asked)
  ordered : providers.Sublist place.registry.providers
  unsupported : providers = [] → course = asked.map .act ++
    [.act (.step .check [] (some (.error (noProvider place.descriptor.displayName))))]
  /-- The last check raises an error if and only if no element is drawn, none has been raised before and the
  template does not allow that. -/
  supported : providers ≠ [] → course = asked.map .act ++ .act (.step .check [] none) :: part ++
    [lastCheck xs t.allowZero (noInvocations place.descriptor.displayName) part]
  /-- One stream is run down behind another, and each element is used before the next is drawn. -/
  supplied : Supplied env path place t 0 providers part xs
  /-- The selected elements are executed under their numbers, and nothing else is. -/
  invocations : List.Forall₂ (IsInvocation place.descriptor) (t.chosen 0 xs) (visits part)
  reported : ∀ p ∈ visits part, Reported p.2
  drawn : xs.length ≤ draws part ∧ (raised part = [] → draws part = xs.length)
  /-- No element is drawn beyond those that are selected. -/
  needed : ∀ s, t.selection = some s → ∀ i, s.contains i → ∃ last, s.contains last ∧ draws part ≤ last
  stops : StopsAtError part

theorem Supplied.needed {ps : List (String × InvocationProvider σ ν (Extension σ ν))}
    {xs : List (TemplateInvocation (Extension σ ν))} (h : Supplied env path place t 0 ps ds xs)
    {s : Selection} (same : t.selection = some s) (selected : s.contains i) :
    ∃ last, s.contains last ∧ Deed.draws ds ≤ last := by
  obtain ⟨last, highest, contained, _⟩ := Selection.max?_of_contains selected
  exact ⟨last, contained, h.draws.2.2 last (by simp [Template.last?, same, highest])⟩

theorem Supplied.order {ps : List (String × InvocationProvider σ ν (Extension σ ν))}
    {xs : List (TemplateInvocation (Extension σ ν))} {asked : List (Act ν)} {course : List (Deed σ ν)}
    (h : Supplied env path place t 0 ps ds xs)
    (supporting : Enacts env (place :: path)
      (supportingProviders (place.registry.extensions .invocationProvider)) ps
      (Act.entriesAll place.descriptor.id asked))
    (ordered : ps.Sublist place.registry.providers)
    (unsupported : ps = [] → course = asked.map .act ++
      [.act (.step .check [] (some (.error (noProvider place.descriptor.displayName))))])
    (supported : ps ≠ [] → course = asked.map .act ++ .act (.step .check [] none) :: ds ++
      [lastCheck xs t.allowZero (noInvocations place.descriptor.displayName) ds])
    (reported : ∀ p ∈ visits ds, Reported p.2) :
    InvocationOrder env path place t asked ps ds xs course where
  supporting := supporting
  ordered := ordered
  unsupported := unsupported
  supported := supported
  supplied := h
  invocations := h.invocations
  reported := reported
  drawn := ⟨h.draws.1, h.draws.2.1⟩
  needed _ same _ := h.needed same
  stops := h.stops

theorem TemplateExpansion.order (h : TemplateExpansion env path place t ds)
    (reported : ∀ p ∈ visits ds, Reported p.2) :
    ∃ asked providers part xs, InvocationOrder env path place t asked providers part xs ds := by
  cases h with
  | @unsupported asked supporting _ =>
    have none : Supplied env path place t 0 [] [] [] := .all
    refine ⟨asked, [], [], [], none.order supporting (List.nil_sublist _) (fun _ => rfl) ?_ ?_⟩
    · exact fun some => absurd rfl some
    · exact fun p member => absurd member List.not_mem_nil
  | @supplied providers asked deeds xs supporting _ some sublist supplied =>
    refine ⟨asked, providers, deeds, xs, supplied.order supporting sublist (fun none => absurd none some)
      (fun _ => rfl) fun p member => reported p ?_⟩
    simp [member]

/-- A template that is entered runs its invocations in order, unless a provider panics when it is asked for its
support. -/
def InvocationsInOrder (env : Environment σ ν) (path : List (Place σ ν)) (v : Visit σ ν)
    (inside : List (Deed σ ν)) : Prop :=
  ∀ t rest, v.descriptor.role = .template t → v.leaving ≠ .stuck → Entered inside rest →
    (v.leaving = .ended ∧ ∃ asked providers part xs course ending, rest = course ++ ending ∧
      InvocationOrder env path v.place t asked providers part xs course ∧ Finish v.place ending) ∨
    ∃ payload, v.leaving = .torn payload ∧ TemplateTorn payload rest

/-- What a node that is entered and comes to its end does before it is finished. -/
theorem FullLaw.course {v : Visit σ ν} {inside rest : List (Deed σ ν)} (law : FullLaw timed env path v inside)
    (ended : v.leaving = .ended) (entered : Entered inside rest) :
    ∃ course ending, rest = course ++ ending ∧ Generates env path v.place course ∧ Finish v.place ending ∧
      ∀ p ∈ visits course, p ∈ visits inside := by
  obtain ⟨asked, same⟩ := entered
  obtain ⟨course, ending, rfl, generates, finish⟩ := law.generates ended asked rest same
  exact ⟨course, ending, rfl, generates, finish, fun p member => by simp [same, member]⟩

theorem FullLaw.invocationsInOrder {v : Visit σ ν} {inside : List (Deed σ ν)} (law : FullLaw timed env path v inside)
    (lawful : ∀ d ∈ inside, Everywhere (FullLaw timed env) (v.place :: path) d) :
    InvocationsInOrder env path v inside := by
  intro t rest role left entered
  rcases law.entered entered left with ⟨ended, _⟩ | ⟨payload, torn, course⟩
  · obtain ⟨course, ending, rfl, generates, finish, among⟩ := law.course ended entered
    cases generates with
    | factory other _ => simp [role] at other
    | none noTemplate _ => exact absurd role (noTemplate t)
    | template same' expansion =>
      cases Role.template.inj (same'.symm.trans role)
      have reported : ∀ p ∈ visits course, Reported p.2 := by
        intro p member
        obtain ⟨high, numbered⟩ := expansion.course
        cases lawful _ (mem_visits (among p member)) with
        | visit law _ => exact (law.ended (numbered.distinct.1 p member).2.1).reported
      obtain ⟨asked, providers, part, xs, order⟩ := expansion.order reported
      exact .inl ⟨ended, asked, providers, part, xs, course, ending, rfl, order, finish⟩
  · cases course with
    | template same torn' => exact .inr ⟨payload, torn, torn'⟩
    | testClass other _ => simp [role] at other
    | container _ other _ => simp [role] at other

/-- In every run each template that is entered numbers what its providers supply across all of them, and runs what it
selects, every one before the next is drawn. It stops behind the first error, and having nothing to run is one. -/
theorem invocations_in_order {c : Configuration} {extensions : List (Declared σ ν)} {tree : TestTree σ ν}
    {user : σ} {run : Run σ ν} (executed : execute c extensions tree user = .ok run) :
    run.Always c extensions tree InvocationsInOrder :=
  Run.always_of_full executed FullLaw.invocationsInOrder

/-- A template with two providers, the second of which has no end. Of the invocations two are selected. -/
def Blueprint.squares : Blueprint Unit String :=
  let square (i : Nat) : Draw Unit String (TemplateInvocation (Extension Unit String)) :=
    .ofValue { displayName := toString (i * i) }
  let provider (name : String) (source : Source Unit String (TemplateInvocation (Extension Unit String))) :
      Extension Unit String :=
    { name, invocationProvider := some {
        supports := .done true, provide := .done (.ok { source, onClose := [.note (name ++ " closed")] }) } }
  .node (.engine "engine") [
    .node { Outline.ofTemplate {
        method := { signature := { name := "squares" }, body := fun _ => .done (.ok ()) }
        selection := some ⟨[(2, 3)]⟩ } with
      extensions := [⟨provider "one" (.listed [square 1]), .default⟩,
        ⟨provider "all" (.endless fun i => square (i + 2)), .default⟩] } []]

theorem invocations_in_order_sample : ∃ run, execute .empty [] Blueprint.squares.build () = .ok run ∧
    run.events.map (·.displayName) = ["engine", "squares", "4", "4", "4", "9", "9", "9", "squares", "engine"] ∧
    run.Always .empty [] Blueprint.squares.build InvocationsInOrder := by
  obtain ⟨run, executed, names⟩ := Blueprint.executed_of_any
    (r := execute .empty [] Blueprint.squares.build ()) (p := fun run => run.events.map (·.displayName) ==
      ["engine", "squares", "4", "4", "4", "9", "9", "9", "squares", "engine"]) (by decide +kernel)
  exact ⟨run, executed, by simpa using names, invocations_in_order executed⟩

end TestEngine

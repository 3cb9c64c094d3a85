import TestEngine.Proofs.Expansions

/-! The steps of a node, one after the other: what each adds to the deeds of the node, and what it adds to
the errors that are gathered. -/
namespace TestEngine
variable {σ ν α β δ : Type}

def nodeOf (path : List (Place σ ν)) : Node := (path.head?.map (·.descriptor.node)).getD default

theorem idOf_sites (path : List (Place σ ν)) : idOf (path.map (·.toSite)) = (nodeOf path).id := by
  cases path <;> rfl

/-- Deeds of the last node of a path, in which each visit keeps the law. -/
def Telling.deeds (timed : Prop) (env : Environment σ ν) (path : List (Place σ ν)) : Telling ν (Deed σ ν) where
  timed := timed
  entries := Deed.entriesAll (nodeOf path)
  lawful d := Deed.Everywhere (FullLaw timed env) path d ∧ ∀ a, d = .act a → a.WatchedAs (nodeOf path).kind
  nil := rfl
  append := Deed.entriesAll_append _

/-- A deed of the last node of a path that is no report of it, and in which no watcher is told. -/
structure Deed.OfCourse (timed : Prop) (env : Environment σ ν) (path : List (Place σ ν)) (d : Deed σ ν) : Prop where
  lawful : Everywhere (FullLaw timed env) path d
  unreported : ∀ r, d ≠ .report r
  unwatched : ∀ a, d = .act a → a.Unwatched

/-- The same without reports of the node itself, and without what its watchers are told. -/
def Telling.course (timed : Prop) (env : Environment σ ν) (path : List (Place σ ν)) : Telling ν (Deed σ ν) where
  timed := timed
  entries := Deed.entriesAll (nodeOf path)
  lawful := Deed.OfCourse timed env path
  nil := rfl
  append := Deed.entriesAll_append _

/-- Whatever the world, the code does at the end of the path what is told by such deeds. -/
abbrev Conducts (timed : Prop) (env : Environment σ ν) (path : List (Place σ ν)) (m : Engine σ ν α)
    (S : α → List (Deed σ ν) → Prop) (E : Halt → List (Deed σ ν) → Prop) : Prop :=
  Goes (.course timed env path) env (path.map (·.toSite)) m S E

/-- What is told by acts is told by deeds, if these are entered under the same node. -/
theorem Goes.deeds {law : Act ν → Prop} {U : Telling ν (Deed σ ν)} {timed : Prop} {env : Environment σ ν}
    {path : List (Place σ ν)} {m : Engine σ ν α} {S : α → List (Act ν) → Prop}
    (h : Goes (.acts timed law (idOf (path.map (·.toSite)))) env (path.map (·.toSite)) m S Calm)
    (may : timed = U.timed) (entries : ∀ ds, U.entries ds = Deed.entriesAll (nodeOf path) ds)
    (lawful : ∀ a, law a → U.lawful (.act a)) :
    Goes U env (path.map (·.toSite)) m (fun a deeds => ∃ acts, S a acts ∧ deeds = acts.map .act)
      fun h deeds => Calm h deeds ∧ ∃ acts : List (Act ν), deeds = acts.map .act := by
  have same (acts : List (Act ν)) : U.entries (acts.map .act)
      = (Telling.acts timed law (idOf (path.map (·.toSite)))).entries acts := by
    rw [entries, idOf_sites]
    exact Deed.entriesAll_act _ acts
  have keeps (acts : List (Act ν)) (each : ∀ a ∈ acts, law a) : ∀ d ∈ acts.map .act, U.lawful d :=
    List.forall_mem_map.mpr fun a member => lawful a (each a member)
  apply h.retell may
  · exact fun a acts s each => ⟨acts.map .act, same acts, keeps acts each, acts, s, rfl⟩
  · exact fun h acts calm each => ⟨acts.map .act, same acts, keeps acts each, calm, acts, rfl⟩

/-- The run is broken off, but not by a panic, and no node has been executed. -/
def Passing (h : Halt) (deeds : List (Deed σ ν)) : Prop := Calm h deeds ∧ Deed.OnlyPasses deeds

theorem Deed.onlyPasses_acts (acts : List (Act ν)) : OnlyPasses (acts.map (.act (σ := σ))) := fun _ _ member => by
  simp at member

theorem Performs.passes {m : Engine σ ν α} {S : α → List (Act ν) → Prop}
    (h : Performs timed env (path.map (·.toSite)) m S) :
    Conducts timed env path m (fun a deeds => ∃ acts, S a acts ∧ deeds = acts.map .act) Passing := by
  have ofCourse (a : Act ν) (unwatched : a.Unwatched) : Deed.OfCourse timed env path (.act a) := by
    refine ⟨.act, nofun, ?_⟩
    rintro _ ⟨⟩
    exact unwatched
  refine (h.deeds (U := .course timed env path) rfl (fun _ => rfl) ofCourse).mono (fun _ _ s => s) ?_
  rintro _ _ ⟨calm, acts, rfl⟩
  exact ⟨calm, Deed.onlyPasses_acts acts⟩

theorem Performs.conducts {m : Engine σ ν α} {S : α → List (Act ν) → Prop}
    (h : Performs timed env (path.map (·.toSite)) m S) :
    Conducts timed env path m (fun a deeds => ∃ acts, S a acts ∧ deeds = acts.map .act) Calm :=
  h.passes.mono (fun _ _ s => s) fun _ _ passing => passing.1

theorem EnactsFresh.enacts {m : Engine σ ν α} {told : List (Entry ν)} (h : EnactsFresh timed env path m a told) :
    Enacts env path m a told := by
  obtain ⟨w, w', there, _, goes, trace⟩ := h
  exact ⟨w, w', there, goes, trace⟩

/-- What code tells it tells from some world. -/
theorem Goes.enactsFresh {T : Telling ν δ} {env : Environment σ ν} {path : List (Place σ ν)} {m : Engine σ ν α}
    {S : α → List δ → Prop} {E : Halt → List δ → Prop} (h : Goes T env (path.map (·.toSite)) m S E) :
    Goes T env (path.map (·.toSite)) m
      (fun a told => S a told ∧ EnactsFresh T.timed env path m a (T.entries told)) E := by
  intro w there fresh
  obtain ⟨told, adds, ends⟩ := h w there fresh
  refine ⟨told, adds, ?_⟩
  rcases goes : m.goes env w with ⟨_ | a, w'⟩ <;> rw [goes] at adds ends
  · exact ends
  · exact ⟨ends, w, w', there, fresh, goes, adds.trace⟩

theorem Goes.enacts {T : Telling ν δ} {env : Environment σ ν} {path : List (Place σ ν)} {m : Engine σ ν α}
    {S : α → List δ → Prop} {E : Halt → List δ → Prop} (h : Goes T env (path.map (·.toSite)) m S E) :
    Goes T env (path.map (·.toSite)) m (fun a told => S a told ∧ Enacts env path m a (T.entries told)) E :=
  h.enactsFresh.mono (fun _ _ ⟨s, enacts⟩ => ⟨s, enacts.enacts⟩) fun _ _ e => e

theorem Quiet.takesStep {code : Attempt σ ν α} (h : Quiet code.run) (s : Step) (unwatched : s.isWatcher = false) :
    TakesStep (· = s) (Engine.step s code) := fun timed env sites =>
  (Performs.step (h timed env sites) s unwatched).calm_mono (fun _ _ ⟨inside, _, same⟩ => ⟨s, inside, rfl, same⟩)

namespace TakesStep
variable {code : Attempt σ ν α} {P Q : Step → Prop}

theorem mono (h : TakesStep P code) (implies : ∀ s, P s → Q s) : TakesStep Q code := fun timed env sites =>
  (h timed env sites).calm_mono (fun _ _ ⟨s, inside, p, same⟩ => ⟨s, inside, implies s p, same⟩)

theorem conducts (h : TakesStep P code) : Conducts timed env path code.run (fun outcome deeds =>
    ∃ s inside, P s ∧ deeds = [.act (.step s inside (faultOf outcome))]) Calm := by
  apply (Performs.conducts (h _ env _)).calm_mono
  rintro outcome _ ⟨_, ⟨s, inside, p, rfl⟩, rfl⟩
  exact ⟨s, inside, p, rfl⟩

end TakesStep

theorem Deed.raised_visits {trees : List (TestTree σ ν)} {ds : List (Deed σ ν)} {m : Manner}
    {left : Leaving → Prop} (h : List.Forall₂ (Visits m left) trees ds) : raised ds = [] := by
  induction h with
  | nil => rfl
  | cons visits _ ih =>
    obtain ⟨v, inside, rfl, _⟩ := visits
    exact ih

def Counted (P : Step → Prop) : Prop := ∀ name, ¬ P (.watcher name)

namespace Deed

@[simp] theorem raised_append (ds es : List (Deed σ ν)) : raised (ds ++ es) = raised ds ++ raised es :=
  List.filterMap_append

@[simp] theorem raised_nil : raised ([] : List (Deed σ ν)) = [] := rfl

@[simp] theorem raised_succeeded (s : Step) (inside : List (Act ν)) (deeds : List (Deed σ ν)) :
    raised (.act (.step s inside none) :: deeds) = raised deeds := by
  cases s <;> rfl

@[simp] theorem raised_report (r : Report) (deeds : List (Deed σ ν)) :
    raised (.report r :: deeds) = raised deeds := rfl

@[simp] theorem raised_visit (v : Visit σ ν) (inside deeds : List (Deed σ ν)) :
    raised (.visit v inside :: deeds) = raised deeds := rfl

end Deed

open Deed

/-- They are reported as skipped, whatever the reason. -/
abbrev SkipsBelow (timed : Prop) (env : Environment σ ν) (path : List (Place σ ν)) (place : Place σ ν)
    (skip : String → Engine σ ν Unit) : Prop :=
  ∀ reason, Conducts timed env (place :: path) (skip reason) (fun _ ds => PassedOver reason place.below ds) Passing

abbrev ExecutesBelow (timed : Prop) (env : Environment σ ν) (path : List (Place σ ν)) (place : Place σ ν)
    (children : Engine σ ν Unit) : Prop :=
  Conducts timed env (place :: path) children (fun _ ds => ChildrenExecuted env.settings place ds)
    fun h ds => ∀ payload, h = .panicked payload → ChildrenTorn payload place.below ds

/-- The code does what such a node does, and its result gathers what that raises. -/
abbrev TakesCourse (timed : Prop) (env : Environment σ ν) (path : List (Place σ ν)) (place : Place σ ν)
    (body : Engine σ ν ExecutionResult) : Prop :=
  Conducts timed env (place :: path) body
    (fun r ds => Course env.settings path place ds ∧ Generates env path place ds ∧ RunsTest timed env path place ds ∧
      ∃ c : Collector, r = c.toResult ∧ Collects c.primary (raised ds))
    fun h ds => ∀ payload, h = .panicked payload → CourseTorn env.settings path place payload ds

theorem Counted.gathers {P : Step → Prop} (counted : Counted P) (p : P s) (inside : List (Act ν))
    (outcome : Except Fault α) :
    Collects (raisedBy outcome) (raised [(.act (.step s inside (faultOf outcome)) : Deed σ ν)]) := by
  cases outcome with
  | ok => cases s <;> exact .nil
  | error fault =>
    cases s with
    | watcher name => exact absurd p (counted name)
    | _ => exact .single _

theorem Collects.raising {o : Option TestError} {outcome : Except Fault α} {es : List TestError}
    (h : Collects o es) (same : faultOf outcome = o.map .error) : Collects (raisedBy outcome) es := by
  have raised : raisedBy outcome = o := by
    cases outcome <;> cases o <;> simp_all [faultOf, raisedBy, Fault.toError]
  rwa [raised]

/-- What a collector has taken in from one point to another is what was raised in between. -/
def Gathered (c c' : Collector) (deeds : List (Deed σ ν)) : Prop :=
  ∀ es, Collects c.primary es → Collects c'.primary (es ++ raised deeds)

namespace Gathered
variable {c c' c'' : Collector} {ds es : List (Deed σ ν)}

theorem refl (c : Collector) : Gathered c c ([] : List (Deed σ ν)) := fun es h => by simpa using h

theorem untouched (c : Collector) (none : raised ds = []) : Gathered c c ds := fun es h => by
  rwa [none, List.append_nil]

theorem trans (first : Gathered c c' ds) (second : Gathered c' c'' es) : Gathered c c'' (ds ++ es) := by
  intro before h
  rw [raised_append, ← List.append_assoc]
  exact second _ (first _ h)

theorem record (c : Collector) {outcome : Except Fault Unit} (h : Collects (raisedBy outcome) (raised ds)) :
    Gathered c (c.record outcome) ds := fun _ before => before.record h

theorem whole (h : Gathered .empty c ds) : Collects c.primary (raised ds) := h [] .nil

end Gathered

theorem Collector.isEmpty_add (c : Collector) (e : TestError) : (c.add e).isEmpty = false := by
  unfold Collector.add
  cases c.primary with
  | none => rfl
  | some p =>
    dsimp only
    split <;> rfl

section
variable {env : Environment σ ν} {path : List (Place σ ν)} {E : Halt → List (Deed σ ν) → Prop}

theorem conducts_collect {code : Attempt σ ν Unit} {Q : Except Fault Unit → List (Deed σ ν) → Prop}
    (c : Collector) (h : Conducts timed env path code.run Q E) :
    Conducts timed env path (Execution.collect c code)
      (fun c' deeds => ∃ outcome, c' = c.record outcome ∧ Q outcome deeds) E := by
  refine h.bind (fun outcome deeds q => .pure ?_) fun _ _ e => e
  rw [List.append_nil]
  exact ⟨outcome, rfl, q⟩

theorem conducts_check (wrong : Option TestError) :
    Conducts timed env path (Engine.check wrong : Attempt σ ν Unit).run (fun outcome deeds =>
      deeds = [.act (.step .check [] (wrong.map .error))] ∧ Collects (raisedBy outcome) (raised deeds)) Calm := by
  apply (Performs.conducts (Performs.raising .check rfl wrong)).calm_mono
  rintro outcome _ ⟨_, ⟨rfl, same⟩, rfl⟩
  refine ⟨rfl, ?_⟩
  rw [← same]
  exact Counted.gathers (P := (· = .check)) (fun _ => Step.noConfusion) rfl [] outcome

variable {plan : List (Step → Prop)} {steps : List (Attempt σ ν Unit)}

theorem conducts_collectUntilError (takes : List.Forall₂ TakesStep plan steps)
    (counted : ∀ P ∈ plan, Counted P) (c : Collector) :
    Conducts timed env path (Execution.collectUntilError c steps)
      (fun c' deeds => Gathered c c' deeds ∧ When (c.isEmpty = true) (UntilFailure plan) deeds) Calm := by
  induction takes generalizing c with
  | nil => exact .pure ⟨.refl c, fun _ => .nil, fun _ => rfl⟩
  | cons step rest ih =>
    unfold Execution.collectUntilError
    split
    · rename_i none_yet
      apply (conducts_collect c step.conducts).calm_bind
      rintro c' _ ⟨outcome, rfl, s, inside, p, rfl⟩
      have gathered : Collects (raisedBy outcome)
          (raised [(.act (.step s inside (faultOf outcome)) : Deed σ ν)]) :=
        (counted _ (by simp)).gathers p inside outcome
      apply (ih (fun P member => counted P (by simp [member])) _).calm_mono
      rintro c' deeds ⟨more, when⟩
      refine ⟨(Gathered.record c gathered).trans more, fun _ => ?_, fun some => absurd none_yet some⟩
      cases outcome with
      | ok => exact .succeeded p (when.held none_yet)
      | error fault =>
        have ended : deeds = [] := when.failed (by simp [Collector.record, Collector.isEmpty_add])
        rw [ended]
        exact .failed p
    · rename_i some
      exact .pure ⟨.refl c, .missing some⟩

theorem conducts_collectAll (takes : List.Forall₂ TakesStep plan steps) (c : Collector) :
    Conducts timed env path (Execution.collectAll c steps) (fun c' deeds =>
      InTurn plan deeds ∧ ((∀ P ∈ plan, Counted P) → Gathered c c' deeds)) Calm := by
  induction takes generalizing c with
  | nil => exact .pure ⟨.nil, fun _ => .refl c⟩
  | cons step rest ih =>
    unfold Execution.collectAll
    apply (conducts_collect c step.conducts).calm_bind
    rintro c' _ ⟨outcome, rfl, s, inside, p, rfl⟩
    apply (ih _).calm_mono
    rintro c' deeds ⟨turns, gathered⟩
    refine ⟨.step p turns, fun counted => ?_⟩
    exact (Gathered.record c ((counted _ (by simp)).gathers p inside outcome)).trans
      (gathered fun P member => counted P (by simp [member]))

abbrev Plans (timed : Prop) (env : Environment σ ν) (path : List (Place σ ν)) (plan : List (Step → Prop))
    (supply : Engine σ ν (List (Attempt σ ν Unit))) : Prop :=
  Conducts timed env path supply (fun steps deeds => deeds = [] ∧ List.Forall₂ TakesStep plan steps) Calm

namespace Plans
variable {supply : Engine σ ν (List (Attempt σ ν Unit))}

theorem collectUntilError (h : Plans timed env path plan supply) (counted : ∀ P ∈ plan, Counted P) (c : Collector) :
    Conducts timed env path (do Execution.collectUntilError c (← supply)) (fun c' deeds =>
      Gathered c c' deeds ∧ When (c.isEmpty = true) (UntilFailure plan) deeds) Calm := by
  apply h.calm_bind
  rintro steps _ ⟨rfl, takes⟩
  exact conducts_collectUntilError takes counted c

theorem collectAll (h : Plans timed env path plan supply) (counted : ∀ P ∈ plan, Counted P) (c : Collector) :
    Conducts timed env path (do Execution.collectAll c (← supply)) (fun c' deeds =>
      Gathered c c' deeds ∧ InTurn plan deeds) Calm := by
  apply h.calm_bind
  rintro steps _ ⟨rfl, takes⟩
  apply (conducts_collectAll takes c).calm_mono
  exact fun _ _ ⟨turns, gathered⟩ => ⟨gathered counted, turns⟩

end Plans

theorem conducts_proceedIf {next : Collector → Engine σ ν Collector} {Q : List (Deed σ ν) → Prop}
    {condition : Prop} {entered : Bool} (c : Collector) (same : entered = true ↔ condition)
    (h : condition → Conducts timed env path (next c) (fun c' deeds => Gathered c c' deeds ∧ Q deeds) E) :
    Conducts timed env path (Execution.proceedIf entered c next)
      (fun c' deeds => Gathered c c' deeds ∧ When condition Q deeds) E := by
  unfold Execution.proceedIf
  split
  · rename_i here
    have here := same.mp here
    exact (h here).mono (fun _ _ ⟨gathered, q⟩ => ⟨gathered, .there here q⟩) fun _ _ e => e
  · rename_i not
    exact .pure ⟨.refl c, .missing fun here => not (same.mpr here)⟩

theorem conducts_showException (c : Collector) :
    Conducts timed env path (Execution.showException c) (fun _ deeds => deeds = []) E :=
  .modifyTop _ fun _ => rfl

end
end TestEngine

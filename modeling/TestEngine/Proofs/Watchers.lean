import TestEngine.Proofs.Executing

/-! What watchers are told. Each watcher of a test hears once how that fares, by the method for its result, or of the
reason for which it is skipped. Nothing else in the node calls a watcher. -/
namespace TestEngine
variable {σ ν : Type}

open Deed Execution

/-- How the watchers of a node are told of it. -/
structure WatchersTold (env : Environment σ ν) (path : List (Place σ ν)) (v : Visit σ ν)
    (inside : List (Deed σ ν)) : Prop where
  /-- They are those of the chain of the node, or of the chain above where its own extensions are refused. -/
  registry : v.place.registry = registryBelow env path v.descriptor
  /-- A node that is finished has closed its store before, and its result is what they are told. -/
  finished : ∀ r, .report (.finished r) ∈ inside → ∃ (before : List (Deed σ ν)) (notes : List ν)
    (fault : Option Fault) (told : List (Deed σ ν)),
    inside = before ++ .act (.step .closeStore (notes.map .note) fault) :: told ++ [.report (.finished r)] ∧
    Underway before ∧ TellsEach env path v.place (verdictOn r) v.place.watching told
  /-- Of a skip they are told with its reason, unless the run goes no further there. -/
  skipped : ∀ reason, .report (.skipped reason) ∈ inside → v.leaving = .stuck ∨
    ∃ before told rest : List (Deed σ ν), inside = before ++ .report (.skipped reason) :: told ++ rest ∧
      Underway before ∧ TellsEach env path v.place (fun w => w.disabled reason) v.place.watching told ∧ Underway rest
  /-- No other node has any watcher told of it. -/
  unwatched : v.descriptor.kind ≠ .test → ∀ a, .act a ∈ inside → a.Unwatched

section
variable {env : Environment σ ν} {path : List (Place σ ν)} {place : Place σ ν} {v : Visit σ ν}
  {inside ds : List (Deed σ ν)}

/-- Telling watchers is no report of the node. -/
theorem TellsEach.unreported {tell : Watcher σ ν → Program σ ν Unit} {es : List (Extension σ ν)}
    (h : TellsEach env path place tell es ds) : Plain ds := Plain.of_inTurn h.inTurn

theorem Deed.Underway.unskipped (h : Underway ds) (reason : String) : .report (.skipped reason) ∉ ds := fun member =>
  Report.noConfusion (h.reports _ member)

theorem EndTold.finished_inv (h : EndTold env path place inside) (reported : .report (.finished r) ∈ inside) :
    ∃ (before : List (Deed σ ν)) (notes : List ν) (fault : Option Fault) (told : List (Deed σ ν)),
      inside = before ++ .act (.step .closeStore (notes.map .note) fault) :: told ++ [.report (.finished r)] ∧
      Underway before ∧ TellsEach env path place (verdictOn r) place.watching told := by
  cases h with
  | @finished before _ underway told =>
    cases told with
    | @behind result told fault notes tells =>
      have same : r = result := by
        rcases List.mem_append.mp reported with first | rest
        · exact absurd first (underway.unfinished r)
        · have plain : .report (.finished r) ∉ told := fun member => tells.unreported _ member _ rfl
          simpa [plain] using rest
      rw [same]
      exact ⟨before, notes, fault, told, by simp, underway, tells⟩
  | @skipped before _ underway told =>
    cases told with
    | @behind reason told rest tells resting =>
      refine absurd reported ?_
      have plain : .report (.finished r) ∉ told := fun member => tells.unreported _ member _ rfl
      simp [underway.unfinished r, resting.unfinished r, plain]

theorem EndTold.skipped_inv (h : EndTold env path place inside) (reported : .report (.skipped reason) ∈ inside) :
    ∃ before told rest : List (Deed σ ν), inside = before ++ .report (.skipped reason) :: told ++ rest ∧
      Underway before ∧ TellsEach env path place (fun w => w.disabled reason) place.watching told ∧
      Underway rest := by
  cases h with
  | @finished before _ underway told =>
    cases told with
    | @behind result told fault notes tells =>
      refine absurd reported ?_
      have plain : .report (.skipped reason) ∉ told := fun member => tells.unreported _ member _ rfl
      simp [underway.unskipped reason, plain]
  | @skipped before _ underway told =>
    cases told with
    | @behind given told rest tells resting =>
      have plain : .report (.skipped reason) ∉ told := fun member => tells.unreported _ member _ rfl
      have same : reason = given := by
        simpa [underway.unskipped reason, resting.unskipped reason, plain] using reported
      rw [same]
      exact ⟨before, told, rest, by simp, underway, tells, resting⟩

/-- A node that a panic leaves has been started. -/
theorem Law.untorn (law : Law env path v inside) (reported : .report (.skipped reason) ∈ inside) :
    v.leaving = .ended ∨ v.leaving = .stuck := by
  cases left : v.leaving with
  | ended => exact .inl rfl
  | stuck => exact .inr rfl
  | torn payload =>
    obtain ⟨_, asked, course, rfl, torn⟩ := law.torn payload left
    have plain : .report (.skipped reason) ∉ course := fun member => Plain.of_courseTorn torn _ member _ rfl
    simp [admission, plain] at reported

theorem FullLaw.watchersTold (law : FullLaw timed env path v inside) : WatchersTold env path v inside where
  registry := law.registry
  finished r reported := (law.endTold (law.result r reported).1).finished_inv reported
  skipped reason reported :=
    (law.untorn reported).symm.imp_right fun ended => (law.endTold ended).skipped_inv reported
  unwatched other a member := by
    cases law.watched a member with
    | unwatched unwatched => exact unwatched
    | told test _ | cut test _ => exact absurd test other

end

section
variable {c : Configuration} {extensions : List (Declared σ ν)} {tree : TestTree σ ν} {user : σ}
  {run : Run σ ν}

/-- In every run, with parallel execution or without, each watcher of a test that is skipped or finished is told so
once, in the order of the registry and whatever the others raise. Containers, templates and factories are not watched. -/
theorem watchers_told (executed : execute c extensions tree user = .ok run) :
    run.Always c extensions tree WatchersTold := Run.always_of_full executed fun law _ => law.watchersTold

/-- Tests that fare in different ways, static or made at run time, under two watchers of which the first panics
whatever it is told. One test has a watcher more, and the extensions of another are refused. -/
def Blueprint.watched : Blueprint Unit String :=
  let body (outcome : Except TestError Unit) : Code Unit String Unit := .done outcome
  let method {α : Type} (name : String) (body : Code Unit String α) : Method Unit String α :=
    { signature := { name }, body := fun _ => body }
  let watcher (name : String) (last : Program Unit String Unit) : Extension Unit String :=
    { name
      watcher := some {
        disabled := fun reason => .note (name ++ " disabled: " ++ reason) last
        successful := .note (name ++ " successful") last
        aborted := fun e => .note (name ++ " aborted: " ++ e.message) last
        failed := fun e => .note (name ++ " failed: " ++ e.message) last } }
  let own (name : String) (position : Position) : Declared Unit String := ⟨watcher name (.done ()), position⟩
  .node { Outline.engine "engine" with
      extensions := [⟨watcher "first" (.panic .other), .default⟩, own "second" .default] } [
    .node (.ofTest (method "passes" (body (.ok ())))) [],
    .node { Outline.ofTest (method "fails" (body (.error (.failure "broken")))) with
      extensions := [own "third" .default] } [],
    .node { Outline.ofTest (method "waits" (body (.ok ()))) with
      extensions := [⟨.disabled "later", .default⟩] } [],
    .node { Outline.ofTest (method "refused" (body (.ok ()))) with
      extensions := [own "left" .innermost, own "right" .innermost] } [],
    .node (.ofFactory { method := method "makes" (.done (.ok (.ofList [.test "made" (.done (.ok ()))]))) }) []]

def Blueprint.watchedNotes : List String :=
  let claimed := " failed: Extension [right] cannot claim the Innermost position for Watcher: already claimed by [left]"
  ["first successful", "second successful", "first failed: broken", "second failed: broken", "third failed: broken",
    "first disabled: later", "second disabled: later", "first" ++ claimed, "second" ++ claimed,
    "first successful", "second successful"]

theorem watchers_told_sample : ∃ run, execute .empty [] Blueprint.watched.build () = .ok run ∧ run.halt = none ∧
    run.notes = Blueprint.watchedNotes ∧ run.Always .empty [] Blueprint.watched.build WatchersTold := by
  obtain ⟨run, executed, checked⟩ := Blueprint.executed_of_any
    (r := execute .empty [] Blueprint.watched.build ())
    (p := fun run => run.halt.isNone && run.notes == Blueprint.watchedNotes) (by decide +kernel)
  rw [Bool.and_eq_true, Option.isNone_iff_eq_none, beq_iff_eq] at checked
  exact ⟨run, executed, checked.1, checked.2, watchers_told executed⟩

end
end TestEngine

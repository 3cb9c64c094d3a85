import TestEngine.Proofs.Reporting

/-! What becomes of a node that is come to: it is refused or disabled, cannot be entered, or is entered. Every way keeps
what the law wants of a visit. -/
namespace TestEngine
variable {σ ν α : Type}

open Deed Execution

section
variable {env : Environment σ ν} {place : Place σ ν} {path : List (Place σ ν)}

theorem does_registration (refusal : Option TestError) :
    Does timed env path (discard (registration refusal).run) (fun _ ds => Underway ds ∧
      ds = [.act (.step .registration [] (refusal.map .error))]) Hanging := by
  have registers : Does timed env path (registration refusal).run _ _ :=
    (Performs.raising .registration rfl refusal).conducts.does
  refine (registers.mono (fun _ _ s => s) fun _ _ h => ⟨h.1.unfinished, h.2⟩).discard ?_
  rintro _ _ ⟨underway, _, ⟨rfl, _⟩, rfl⟩
  exact ⟨underway, rfl⟩

theorem performs_evaluateConditions (env : Environment σ ν) (sites : List (Site σ ν)) :
    Performs timed env sites evaluateConditions.run fun outcome acts =>
      (∃ inside, acts = [.step .conditions inside (faultOf outcome)] ∧ ∀ a ∈ inside, AsksCondition a) ∧
        ∀ fault, outcome = .error fault → fault.toError.isAborted = false := by
  unfold evaluateConditions
  refine (Performs.step (S := fun outcome inside => (∀ a ∈ inside, AsksCondition a) ∧
    ∀ fault, outcome = .error fault → fault.toError.isAborted = false) ?_ _ rfl).calm_mono ?_
  · refine Goes.calm_bind (Goes.silent (S := fun _ xs => xs = []) fun w _ => ⟨rfl, rfl, rfl, rfl⟩) ?_
    rintro _ _ rfl
    apply (performs_evaluateWith (ActsAsUser.discipline σ ν).run _ timed env sites).calm_bind
    rintro verdict inside ⟨asked, configured⟩
    cases verdict with
    | ok => exact .pure ⟨by simpa using asked, nofun⟩
    | error e =>
      refine .pure ⟨by simpa using asked, ?_⟩
      rintro _ ⟨⟩
      exact configured e rfl
  · rintro outcome _ ⟨inside, ⟨asked, configured⟩, rfl⟩
    exact ⟨⟨inside, rfl, asked⟩, configured⟩

/-- The deeds are what the law wants of a visit that comes to its end. -/
structure Kept (timed : Prop) (env : Environment σ ν) (path : List (Place σ ν)) (v : Visit σ ν) (ds : List (Deed σ ν)) :
    Prop where
  conduct : Conduct env path v ds
  result : ∀ r, .report (.finished r) ∈ ds → r.Tells (raised ds)
  generates : ∀ asked rest, ds = admission asked none ++ .report .started :: rest →
    ∃ course ending, rest = course ++ ending ∧ Generates env path v.place course ∧ Finish v.place ending
  runsTest : ∀ asked rest, ds = admission asked none ++ .report .started :: rest →
    ∃ course ending, rest = course ++ ending ∧ RunsTest timed env path v.place course ∧ Finish v.place ending
  made : v.manner = .made → MadeInside env v ds
  skipped : ∀ reason, .report (.skipped reason) ∈ ds → ∀ a, .act a ∈ ds → a.OfSkip
  endTold : EndTold env path v.place ds

/-- A node that is started is not skipped. -/
theorem Kept.of_started {v : Visit σ ν} {ds : List (Deed σ ν)} (conduct : Conduct env path v ds)
    (started : .report .started ∈ ds) (result : ∀ r, .report (.finished r) ∈ ds → r.Tells (raised ds))
    (generates : ∀ asked rest, ds = admission asked none ++ .report .started :: rest →
      ∃ course ending, rest = course ++ ending ∧ Generates env path v.place course ∧ Finish v.place ending)
    (runsTest : ∀ asked rest, ds = admission asked none ++ .report .started :: rest →
      ∃ course ending, rest = course ++ ending ∧ RunsTest timed env path v.place course ∧ Finish v.place ending)
    (made : v.manner = .made → MadeInside env v ds) (endTold : EndTold env path v.place ds) :
    Kept timed env path v ds where
  conduct := conduct
  result := result
  generates := generates
  runsTest := runsTest
  made := made
  skipped reason reported := absurd reported (conduct.unskipped started reason)
  endTold := endTold

/-- The deeds are what the law wants of a visit that is broken off. -/
structure Broken (env : Environment σ ν) (path : List (Place σ ν)) (place : Place σ ν) (h : Halt)
    (ds : List (Deed σ ν)) : Prop where
  unfinished : Unfinished ds
  torn : ∀ payload, h = .panicked payload → ∃ asked course,
    ds = admission asked none ++ .report .started :: course ∧
      CourseTorn env.settings path place payload course

theorem Hanging.broken {ds : List (Deed σ ν)} (h : Hanging halt ds) : Broken env path place halt ds :=
  ⟨h.1, fun payload panicked => absurd panicked (h.2 payload)⟩

theorem sums_behind {before ds : List (Deed σ ν)} (unfinished : Unfinished before)
    (sums : ∀ r, .report (.finished r) ∈ ds → r.Tells (raised before ++ raised ds)) :
    ∀ r, .report (.finished r) ∈ before ++ ds → r.Tells (raised (before ++ ds)) := by
  intro r member
  rw [raised_append]
  exact (List.mem_append.mp member).elim (fun first => absurd first (unfinished r)) (sums r)

theorem ofError_failed {e : TestError} (h : e.isAborted = false) :
    ExecutionResult.failed e = (Collector.mk (some e)).toResult := by
  simp [Collector.toResult, ExecutionResult.ofError, h]

variable {v : Visit σ ν} {skip : String → Engine σ ν Unit}

/-- A node that is started does what is between, and is finished with a result that tells what it has raised since the
marks at its beginning, these included. -/
theorem does_started {place : Place σ ν} {before : List (Deed σ ν)} (begun : Underway before) {between : Engine σ ν α}
    {result : α → ExecutionResult} {S : α → List (Deed σ ν) → Prop} {T : PanicPayload → List (Deed σ ν) → Prop}
    (does : Does timed env (place :: path) between (fun a ds => Underway ds ∧ S a ds ∧
        ∃ c : Collector, result a = c.toResult ∧ Collects c.primary (raised before ++ raised ds))
      fun h ds => Underway ds ∧ ∀ payload, h = .panicked payload → T payload ds) :
    Does timed env (place :: path) (do
        Engine.report place.descriptor.node .started
        finish place.descriptor (result (← between)))
      (fun _ ds => ∃ a course ending, ds = .report .started :: course ++ ending ∧ S a course ∧ Finish place ending ∧
        EndTold env path place (before ++ ds) ∧
        ∀ r, .report (.finished r) ∈ before ++ ds → r.Tells (raised (before ++ ds)))
      (fun h ds => Unfinished (before ++ ds) ∧
        ∀ payload, h = .panicked payload → ∃ course, ds = .report .started :: course ∧ T payload course) := by
  refine (does_report place .started (E := fun _ _ => False)).bind ?_ fun _ _ never => never.elim
  rintro _ _ rfl
  have started := begun.append Underway.started
  refine does.bind ?_ ?_
  · rintro a course ⟨underway, s, c, same, gathers⟩
    have upToEnd := started.append underway
    rw [same]
    refine (does_finish place c).mono ?_ ?_
    · rintro _ ending ⟨finish, told, sums⟩
      refine ⟨a, course, ending, by simp, s, finish, by simpa using EndTold.finished upToEnd told, ?_⟩
      have gathered : Collects c.primary (raised (before ++ [.report .started] ++ course)) := by
        simpa [raised_append] using gathers
      simpa using sums_behind upToEnd.unfinished (sums _ gathered)
    · rintro h ending hanging
      refine ⟨by simpa using upToEnd.unfinished.append hanging.1, hanging.2.no_panic⟩
  · rintro h course ⟨underway, torn⟩
    exact ⟨by simpa using (started.append underway).unfinished,
      fun payload panicked => ⟨course, rfl, torn payload panicked⟩⟩

/-- A node that cannot be entered passes over what is below it, and is finished with the error that kept it out. -/
theorem does_failed {place : Place σ ν} {before : List (Deed σ ν)} (begun : Underway before)
    (failure : raised before = [e]) (configured : e.isAborted = false) {reason : String} {below : Engine σ ν Unit}
    (skips : Conducts timed env (place :: path) below (fun _ ds => PassedOver reason place.below ds) Passing) :
    Does timed env (place :: path) (do
        Engine.report place.descriptor.node .started
        below
        finish place.descriptor (.failed e))
      (fun _ ds => ∃ skips ending, ds = .report .started :: skips ++ ending ∧ PassedOver reason place.below skips ∧
        Finish place ending ∧ EndTold env path place (before ++ ds) ∧
        ∀ r, .report (.finished r) ∈ before ++ ds → r.Tells (raised (before ++ ds)))
      (fun h ds => Hanging h (before ++ ds)) := by
  have passes : Does timed env (place :: path) below (fun _ ds => Underway ds ∧ PassedOver reason place.below ds ∧
      ∃ c : Collector, ExecutionResult.failed e = c.toResult ∧ Collects c.primary (raised before ++ raised ds))
      (fun h ds => Underway ds ∧ ∀ payload, h = .panicked payload → False) := by
    refine skips.does.mono ?_ fun h _ ⟨underway, passing⟩ => ⟨underway, passing.1⟩
    rintro _ ds ⟨underway, passedOver⟩
    refine ⟨underway, passedOver, .mk (some e), ofError_failed configured, ?_⟩
    rw [failure, raised_visits passedOver]
    exact .single e
  refine (does_started begun passes).mono ?_ ?_
  · rintro _ ds ⟨_, skips, ending, same, passedOver, finish, told, tells⟩
    exact ⟨skips, ending, same, passedOver, finish, told, tells⟩
  · exact fun h ds ⟨unfinished, torn⟩ => ⟨unfinished, fun payload panicked => (torn payload panicked).elim
      fun _ never => never.2⟩

theorem does_refused (executed : v.manner = .executed)
    (refused : registryFor env.settings v.descriptor (registryAbove env path) = .error e)
    (configured : e.isAborted = false)
    (skips : SkipsBelow timed env path v.place skip) :
    Does timed env (v.place :: path) (Execution.refused v.descriptor e skip)
      (fun _ ds => Kept timed env path v ds) Hanging := by
  unfold Execution.refused
  refine (does_registration (some e)).bind ?_ fun _ _ h => h
  rintro _ _ ⟨registered, rfl⟩
  refine (does_failed registered rfl configured (skips _)).mono ?_ fun _ _ h => h
  rintro _ _ ⟨skips, ending, rfl, passedOver, finish, told, tells⟩
  exact .of_started (by simpa using Conduct.refused executed refused passedOver finish) (by simp) tells
    (by simp [admission]) (by simp [admission]) (by simp [executed]) told

theorem does_reportSkipped {place : Place σ ν} {reason : String} {below : Engine σ ν Unit}
    (skips : Conducts timed env (place :: path) below (fun _ ds => PassedOver reason place.below ds) Passing) :
    Does timed env (place :: path) (reportSkipped place.descriptor reason below)
      (fun _ ds => Skip place reason ds ∧ SkipTold env path place ds ∧ Unfinished ds ∧
        ∀ a, .act a ∈ ds → a.OfSkip) HangingOver := by
  refine (does_report _ (.skipped reason) (E := HangingOver)).bind ?_ fun _ _ h => h
  rintro _ _ rfl
  have begun : Unfinished ([.report (.skipped reason)] : List (Deed σ ν)) := by simp [Unfinished]
  have reported : OnlyPasses ([.report (.skipped reason)] : List (Deed σ ν)) := by simp [OnlyPasses]
  refine (does_announce _).bind ?_ fun _ _ h => h.behind begun reported
  intro _ told tells
  have turns := tells.watcherSteps
  have acts := tells.ofSkip
  refine skips.does.bind ?_ fun _ _ h =>
    ((h.2.hangingOver h.1).behind turns.unfinished turns.onlyPasses).behind begun reported
  rintro _ skips ⟨skipping, passedOver⟩
  refine does_discardedClosing.mono ?_ fun _ _ h =>
    ((h.behind skipping.unfinished passedOver.onlyPasses).behind turns.unfinished turns.onlyPasses).behind begun reported
  rintro _ _ ⟨closed, notes, fault, rfl⟩
  have rest := skipping.append closed
  refine ⟨⟨told, skips, notes.map .note, fault, by simp, turns, passedOver⟩, by simpa using SkipTold.behind tells rest,
    begun.append (turns.unfinished.append rest.unfinished), fun a member => ?_⟩
  simp only [List.singleton_append, List.mem_cons, List.mem_append, reduceCtorEq, Deed.act.injEq, false_or,
    List.not_mem_nil, or_false] at member
  rcases member with among | among | rfl
  · exact acts a among
  · exact absurd among (passedOver.not_act a)
  · exact .closing notes

/-- A condition disables the node. -/
theorem does_disabled (executed : v.manner = .executed) {inside : List (Act ν)} (asked : ∀ a ∈ inside, AsksCondition a)
    (begun : Underway (admission inside none : List (Deed σ ν))) {reason : String}
    (skips : Conducts timed env (v.place :: path) (skip reason) (fun _ ds => PassedOver reason v.place.below ds)
      Passing) :
    Does timed env (v.place :: path) (reportSkipped v.descriptor reason (skip reason))
      (fun _ ds => Kept timed env path v (admission inside none ++ ds))
      (fun h ds => Broken env path v.place h (admission inside none ++ ds)) := by
  refine (does_reportSkipped skips).mono ?_ fun _ _ h => (h.1.behind begun.unfinished).broken
  rintro _ ds ⟨skipped, told, unfinished, acts⟩
  have unstarted : ∀ asked rest, admission inside none ++ ds ≠ admission asked none ++ .report .started :: rest := by
    obtain ⟨told, skips, closing, fault, rfl, _⟩ := skipped
    simp [admission]
  exact {
    conduct := .disabled executed skipped
    result := fun r member => absurd member (begun.unfinished.append unfinished r)
    generates := fun asked rest same => absurd same (unstarted asked rest)
    runsTest := fun asked rest same => absurd same (unstarted asked rest)
    made := by simp [executed]
    skipped := by
      intro reason _ a member
      simp only [admission, List.cons_append, List.nil_append, List.mem_cons, Deed.act.injEq] at member
      rcases member with rfl | rfl | among
      · exact .registration
      · exact .conditions asked
      · exact acts a among
    endTold := .skipped begun told }

/-- No condition is against it, and its body runs. -/
theorem does_entered (executed : v.manner = .executed) {inside : List (Act ν)}
    (begun : Underway (admission inside none : List (Deed σ ν))) {body : Engine σ ν ExecutionResult}
    (bodily : TakesCourse timed env path v.place body) :
    Does timed env (v.place :: path) (do
        Engine.report v.descriptor.node .started
        finish v.descriptor (← body))
      (fun _ ds => Kept timed env path v (admission inside none ++ ds))
      (fun h ds => Broken env path v.place h (admission inside none ++ ds)) := by
  have courses := bodily.does.mono (R := fun r ds => Underway ds ∧ (Course env.settings path v.place ds ∧
      Generates env path v.place ds ∧ RunsTest timed env path v.place ds) ∧
      ∃ c : Collector, r = c.toResult ∧ Collects c.primary (raised (admission inside none : List (Deed σ ν)) ++ raised ds))
    (fun _ _ ⟨underway, kept, generates, runsTest, c, same, gathers⟩ =>
      ⟨underway, ⟨kept, generates, runsTest⟩, c, same, gathers⟩) fun _ _ h => h
  refine (does_started begun courses).mono ?_ ?_
  · rintro _ _ ⟨_, course, ending, rfl, ⟨kept, generates, runsTest⟩, finish, told, tells⟩
    have only (asked : List (Act ν)) (rest : List (Deed σ ν))
        (same : admission inside none ++ (.report .started :: course ++ ending) =
          admission asked none ++ .report .started :: rest) : rest = course ++ ending := by
      simp only [admission, List.cons_append, List.nil_append, List.cons.injEq, true_and] at same
      exact same.2.symm
    exact .of_started (by simpa using Conduct.entered executed kept finish) (by simp) tells
      (fun asked rest same => ⟨course, ending, only asked rest same, generates, finish⟩)
      (fun asked rest same => ⟨course, ending, only asked rest same, runsTest, finish⟩) (by simp [executed]) told
  · rintro h ds ⟨unfinished, torn⟩
    refine ⟨unfinished, fun payload panicked => ?_⟩
    obtain ⟨course, rfl, here⟩ := torn payload panicked
    exact ⟨inside, course, rfl, here⟩

/-- A condition fails. -/
theorem does_unclear (executed : v.manner = .executed) {inside : List (Act ν)} {fault : Fault}
    (begun : Underway (admission inside (some fault) : List (Deed σ ν))) (configured : fault.toError.isAborted = false)
    (skips : SkipsBelow timed env path v.place skip) :
    Does timed env (v.place :: path) (do
        Engine.report v.descriptor.node .started
        skip ("Condition evaluation failed: " ++ fault.toError.message)
        finish v.descriptor (.failed fault.toError))
      (fun _ ds => Kept timed env path v (admission inside (some fault) ++ ds))
      (fun h ds => Broken env path v.place h (admission inside (some fault) ++ ds)) := by
  refine (does_failed begun rfl configured (skips _)).mono ?_ fun _ _ h => h.broken
  rintro _ _ ⟨skips, ending, rfl, passedOver, finish, told, tells⟩
  exact .of_started (by simpa using Conduct.unclear executed passedOver finish) (by simp) tells
    (by simp [admission]) (by simp [admission]) (by simp [executed]) told

theorem does_admitted {body : Engine σ ν ExecutionResult} (executed : v.manner = .executed)
    (skips : SkipsBelow timed env path v.place skip)
    (bodily : TakesCourse timed env path v.place body) :
    Does timed env (v.place :: path) (Execution.admitted v.descriptor skip body)
      (fun _ ds => Kept timed env path v ds) (Broken env path v.place) := by
  unfold Execution.admitted
  refine (does_registration none).bind ?_ fun _ _ h => Hanging.broken h
  rintro _ _ ⟨registered, rfl⟩
  refine (Performs.conducts (performs_evaluateConditions env _)).does.bind ?_ fun _ _ h =>
    (Hanging.behind registered.unfinished ⟨h.1.unfinished, h.2⟩).broken
  rintro outcome _ ⟨evaluated, _, ⟨⟨inside, rfl, asked⟩, configured⟩, rfl⟩
  have begun : Underway (admission inside (faultOf outcome) : List (Deed σ ν)) := registered.append evaluated
  split
  · exact does_disabled executed asked begun (skips _)
  · exact does_entered executed begun bodily
  · exact does_unclear executed begun (configured _ rfl) skips

end
end TestEngine

import TestEngine.Proofs.Asking
import TestEngine.Proofs.Ranking
import TestEngine.Proofs.Showing

/-! Which exception callbacks see in the life of a leaf. What has been raised is shown twice: behind the body to the
callbacks right after it, and once more behind those to all that is left. -/
namespace TestEngine
variable {σ ν : Type} {env : Environment σ ν}

open Execution

/-- The error that is raised in the end for these: the first that is no abort, or else the first, with the others
suppressed. -/
inductive Primary : List TestError → Option TestError → Prop where
  | none : Primary [] none
  | leading {first : TestError} : first.Leads later → Primary (first :: later) (some (first.suppressAll later))
  | outranking {first failure : TestError} {aborts : List TestError} : first.isAborted = true →
      (∀ e ∈ aborts, e.isAborted = true) → failure.isAborted = false →
      Primary (first :: (aborts ++ failure :: later)) (some (failure.suppressAll (first.suppressAll aborts :: later)))

theorem Primary.of_collector (errors : List TestError) :
    Primary errors (errors.foldl Collector.add .empty).primary := by
  cases errors with
  | nil => exact .none
  | cons first later =>
    show Primary _ (later.foldl Collector.add ⟨some first⟩).primary
    by_cases leads : first.Leads later
    · rw [Collector.foldl_add_of_leads leads]
      exact .leading leads
    · obtain ⟨aborted, aborts, failure, behind, rfl, all, real⟩ := TestError.exists_of_not_leads leads
      rw [Collector.foldl_add_outranked aborted all real]
      exact .outranking aborted all real

/-- A step of a leaf: code, the world it is run from, and how it ends. -/
structure LeafStep (σ ν : Type) where
  code : Attempt σ ν Unit
  start : World σ ν
  answer : Answer Unit

namespace LeafStep

def raised (s : LeafStep σ ν) : Option TestError :=
  match s.answer with
  | .ok outcome => raisedBy outcome
  | .error _ => none

def exception (env : Environment σ ν) (s : LeafStep σ ν) : Option TestError :=
  (viewOf env.configuration s.start.abandoned s.start.frames).exception

def IsCallback (capability : Capability) (s : LeafStep σ ν) : Prop :=
  ∃ e ∈ s.start.extensions capability, callback capability e = some s.code

/-- One of the created levels is shown to a pre-destroy callback. -/
def IsFarewell (created : List Level) (s : LeafStep σ ν) : Prop :=
  ∃ level ∈ created, s.code ∈ farewells level (s.start.extensions .instancePreDestroy)

/-- A callback before the body, or the body. -/
def IsBefore (body : Option TestInstance → Attempt σ ν Unit) (s : LeafStep σ ν) : Prop :=
  s.IsCallback .beforeEach ∨ s.IsCallback .beforeTestExecution ∨ ∃ inst, s.code = body inst

/-- The code is over when the run goes on behind it. A body that is late may still be at work then, and is followed up
to its limit only. -/
def IsOver (limit : Option Duration) (s : LeafStep σ ν) : Prop :=
  s.IsCallback .beforeEach ∨ s.IsCallback .beforeTestExecution ∨
    limit = none ∨ ∀ e, s.raised = some e → e.kind ≠ .timeout

end LeafStep

def raisedIn (steps : List (LeafStep σ ν)) : List TestError := steps.filterMap LeafStep.raised

/-- What is gathered from steps by a collector. -/
def Collector.fed (c : Collector) (steps : List (LeafStep σ ν)) : Collector := (raisedIn steps).foldl add c

theorem Collector.fed_append (c : Collector) (steps more : List (LeafStep σ ν)) :
    c.fed (steps ++ more) = (c.fed steps).fed more := by simp [fed, raisedIn]

/-- The world with another exception shown at the node the run is at. -/
def World.showing (e : Option TestError) (w : World σ ν) : World σ ν :=
  match w.frames with
  | [] => w
  | f :: above => { w with frames := { f with exception := e } :: above }

theorem goes_showException (c : Collector) (w : World σ ν) :
    (showException c).goes env w = (.ok (), w.showing c.primary) := rfl

/-- Another exception at the first of the sites. -/
def exhibit (e : Option TestError) : List (Site σ ν × Option TestError) → List (Site σ ν × Option TestError)
  | [] => []
  | (site, _) :: above => (site, e) :: above

@[simp] theorem exhibit_exhibit (e e' : Option TestError) (shows : List (Site σ ν × Option TestError)) :
    exhibit e (exhibit e' shows) = exhibit e shows := by cases shows <;> rfl

theorem World.shows_showing (e : Option TestError) (w : World σ ν) : (w.showing e).shows = exhibit e w.shows := by
  unfold showing shows
  cases frames : w.frames with
  | nil => simp [frames, exhibit]
  | cons f above => rfl

/-- Steps are taken one after the other. Between them it may be changed what is shown, and nothing else is done. -/
inductive Walk (env : Environment σ ν) : World σ ν → List (LeafStep σ ν) → World σ ν → Prop where
  | nil : Walk env w [] w
  | showing (e) : Walk env (w.showing e) steps w' → Walk env w steps w'
  | step : code.run.goes env w = (answer, w') → Walk env w' steps w'' →
      Walk env w (⟨code, w, answer⟩ :: steps) w''

theorem Walk.trans {w w' w'' : World σ ν} {steps more : List (LeafStep σ ν)} (first : Walk env w steps w')
    (second : Walk env w' more w'') : Walk env w (steps ++ more) w'' := by
  induction first with
  | nil => exact second
  | showing e _ ih => exact .showing e (ih second)
  | step goes _ ih => exact .step goes (ih second)

/-- Steps of a kind are taken while the same is shown, and what they raise is gathered. -/
structure Stretch (env : Environment σ ν) (kind : LeafStep σ ν → Prop) (shows : List (Site σ ν × Option TestError))
    (c : Collector) (w : World σ ν) (ended : Except Halt Collector × World σ ν) (steps : List (LeafStep σ ν)) :
    Prop where
  walk : Walk env w steps ended.2
  each : ∀ s ∈ steps, kind s ∧ s.start.shows = shows
  shows : ended.2.shows = shows
  gathered : ∀ c', ended.1 = .ok c' → c' = c.fed steps

/-- Code that is discreet and makes for steps of the kind where this is shown. -/
structure Suits (kind : LeafStep σ ν → Prop) (shows : List (Site σ ν × Option TestError)) (code : Attempt σ ν Unit) :
    Prop where
  kind : ∀ w answer, w.shows = shows → kind ⟨code, w, answer⟩
  discreet : Discreet code.run

namespace Stretch
variable {kind : LeafStep σ ν → Prop} {shows : List (Site σ ν × Option TestError)} {c : Collector} {w : World σ ν}
  {codes : List (Attempt σ ν Unit)}

theorem pure (c : Collector) (there : w.shows = shows) :
    Stretch env kind shows c w ((pure c : Engine σ ν Collector).goes env w) [] :=
  ⟨.nil, nofun, there, fun _ same => (Except.ok.inj same).symm⟩

theorem collect {code : Attempt σ ν Unit} (suits : Suits kind shows code) (c : Collector) (there : w.shows = shows) :
    ∃ steps, Stretch env kind shows c w ((collect c code).goes env w) steps := by
  unfold Execution.collect
  rw [Engine.goes_bind]
  rcases goes : code.run.goes env w with ⟨answer, w'⟩
  have walk : Walk env w [⟨code, w, answer⟩] w' := .step goes .nil
  have still : w'.shows = shows := (suits.discreet.shows_eq goes).trans there
  have kinds := suits.kind w answer there
  have each : ∀ s ∈ [LeafStep.mk code w answer], kind s ∧ s.start.shows = shows := by simp [kinds, there]
  rcases answer with h | outcome
  · exact ⟨_, walk, each, still, nofun⟩
  · refine ⟨_, walk, each, still, fun c' same => ?_⟩
    rw [← Except.ok.inj same]
    cases outcome <;> rfl

theorem bind {m : Engine σ ν Collector} {k : Collector → Engine σ ν Collector} {steps : List (LeafStep σ ν)}
    (first : Stretch env kind shows c w (m.goes env w) steps)
    (second : ∀ c' w', w'.shows = shows → ∃ more, Stretch env kind shows c' w' ((k c').goes env w') more) :
    ∃ more, Stretch env kind shows c w ((m >>= k).goes env w) more := by
  rw [Engine.goes_bind]
  rcases outcome : m.goes env w with ⟨h | c', w'⟩ <;> rw [outcome] at first
  · exact ⟨steps, first.walk, first.each, first.shows, nofun⟩
  · obtain ⟨more, rest⟩ := second c' w' first.shows
    refine ⟨steps ++ more, first.walk.trans rest.walk, List.forall_mem_append.mpr ⟨first.each, rest.each⟩,
      rest.shows, fun c'' same => ?_⟩
    rw [rest.gathered c'' same, first.gathered c' rfl, Collector.fed_append]

theorem mono {kind' : LeafStep σ ν → Prop} {ended : Except Halt Collector × World σ ν} {steps : List (LeafStep σ ν)}
    (h : Stretch env kind shows c w ended steps) (weaker : ∀ s, kind s → kind' s) :
    Stretch env kind' shows c w ended steps where
  walk := h.walk
  each s member := (h.each s member).imp_left (weaker s)
  shows := h.shows
  gathered := h.gathered

section
variable (env)

/-- All steps are taken, whatever they raise. -/
theorem collectAll (suits : ∀ code ∈ codes, Suits kind shows code) (c : Collector) (there : w.shows = shows) :
    ∃ steps, Stretch env kind shows c w ((collectAll c codes).goes env w) steps := by
  induction codes generalizing c w with
  | nil => exact ⟨[], pure c there⟩
  | cons code codes ih =>
    obtain ⟨_, first⟩ := collect (suits code (by simp)) c there
    exact first.bind fun c _ there => ih (fun code member => suits code (by simp [member])) c there

theorem collectUntilError (suits : ∀ code ∈ codes, Suits kind shows code) (c : Collector) (there : w.shows = shows) :
    ∃ steps, Stretch env kind shows c w ((collectUntilError c codes).goes env w) steps := by
  induction codes generalizing c w with
  | nil => exact ⟨[], pure c there⟩
  | cons code codes ih =>
    unfold Execution.collectUntilError
    split
    · obtain ⟨_, first⟩ := collect (suits code (by simp)) c there
      exact first.bind fun c _ there => ih (fun code member => suits code (by simp [member])) c there
    · exact ⟨[], pure c there⟩

/-- The callbacks of the node, gathered from in one way or the other. -/
theorem callbacks {gather : Collector → List (Attempt σ ν Unit) → Engine σ ν Collector}
    (gathers : ∀ {kind shows codes w}, (∀ code ∈ codes, Suits kind shows code) → ∀ c, w.shows = shows →
      ∃ steps, Stretch env kind shows c w ((gather c codes).goes env w) steps)
    (capability : Capability) (c : Collector) (there : w.shows = shows) :
    ∃ steps, Stretch env (·.IsCallback capability) shows c w
      ((callbacks capability >>= gather c).goes env w) steps := by
  have suits (code : Attempt σ ν Unit) (member : code ∈ (w.extensions capability).filterMap (callback capability)) :
      Suits (·.IsCallback capability) shows code := by
    obtain ⟨e, among, found⟩ := List.mem_filterMap.mp member
    have engine := Discreet.tenure σ ν
    refine ⟨fun w' _ there' => ⟨e, ?_, found⟩, engine.callback found fun className m _ => engine.invokeOnClass _ _ _⟩
    rwa [World.extensions_congr (there'.trans there.symm)]
  exact gathers suits c there

/-- They are shown what has been raised so far, and it stays so. -/
theorem shown (capability : Capability) (c : Collector) (w : World σ ν) :
    ∃ steps, Stretch env (·.IsCallback capability) (exhibit c.primary w.shows) c w
      ((showException c >>= fun _ => Execution.callbacks capability >>= Execution.collectAll c).goes env w) steps := by
  rw [Engine.goes_bind, goes_showException]
  obtain ⟨steps, h⟩ := callbacks env (collectAll env) capability c (w.shows_showing c.primary)
  exact ⟨steps, .showing c.primary h.walk, h.each, h.shows, h.gathered⟩

end
end Stretch

/-- The steps of a leaf: those up to its body, those right behind it, and those that are left then. -/
structure LeafCourse (σ ν : Type) where
  before : List (LeafStep σ ν)
  afterExecution : List (LeafStep σ ν)
  late : List (LeafStep σ ν)

namespace LeafCourse

def steps (x : LeafCourse σ ν) : List (LeafStep σ ν) := x.before ++ x.afterExecution ++ x.late

def atExecution (x : LeafCourse σ ν) : Option TestError := (Collector.empty.fed x.before).primary

/-- What is shown to those steps that are left. -/
def atEnd (x : LeafCourse σ ν) : Option TestError := (Collector.empty.fed (x.before ++ x.afterExecution)).primary

end LeafCourse

section
variable {body : Option TestInstance → Attempt σ ν Unit} {w : World σ ν}

/-- What is done around the body is done in two stretches. -/
structure AroundBody (env : Environment σ ν) (body : Option TestInstance → Attempt σ ν Unit) (c : Collector)
    (w : World σ ν) (ended : Except Halt Collector × World σ ν) (steps more : List (LeafStep σ ν)) : Prop where
  walk : Walk env w (steps ++ more) ended.2
  before : ∀ s ∈ steps, s.IsBefore body ∧ s.start.shows = w.shows
  after : ∀ s ∈ more, s.IsCallback .afterTestExecution ∧ s.start.shows = exhibit (c.fed steps).primary w.shows
  shows : ∀ e, exhibit e ended.2.shows = exhibit e w.shows
  gathered : ∀ c', ended.1 = .ok c' → c' = c.fed (steps ++ more)

namespace AroundBody
variable {c c' : Collector} {w' : World σ ν} {ended : Except Halt Collector × World σ ν}
  {earlier steps more : List (LeafStep σ ν)}

theorem of_stretch (h : Stretch env (·.IsBefore body) w.shows c w ended steps) :
    AroundBody env body c w ended steps [] :=
  ⟨by simpa using h.walk, h.each, nofun, fun e => congrArg (exhibit e) h.shows, by simpa using h.gathered⟩

/-- Behind earlier steps that are shown the same. -/
theorem behind (first : Stretch env (·.IsBefore body) w.shows c w (.ok c', w') earlier)
    (h : AroundBody env body c' w' ended steps more) : AroundBody env body c w ended (earlier ++ steps) more := by
  obtain rfl := first.gathered c' rfl
  have same : w'.shows = w.shows := first.shows
  obtain ⟨walk, before, after, shows, gathered⟩ := h
  rw [same] at before after shows
  simp only [← Collector.fed_append, ← List.append_assoc] at after gathered
  exact ⟨by simpa using first.walk.trans walk, List.forall_mem_append.mpr ⟨first.each, before⟩, after, shows, gathered⟩

end AroundBody

variable (env)

theorem exists_stretch_body (discreet : ∀ inst, Discreet (body inst).run) (c : Collector) (w : World σ ν) :
    ∃ steps, Stretch env (·.IsBefore body) w.shows c w ((do
      let c ← callbacks .beforeTestExecution >>= collectUntilError c
      proceedIf c.isEmpty c fun c => do collect c (body (← innermost?)) : Engine σ ν Collector).goes env w) steps := by
  obtain ⟨_, first⟩ := Stretch.callbacks env (Stretch.collectUntilError env) .beforeTestExecution c (w := w) rfl
  refine (first.mono fun s => .inr ∘ .inl).bind fun c w' there => ?_
  unfold proceedIf
  split
  · exact Stretch.collect ⟨fun _ _ _ => .inr (.inr ⟨_, rfl⟩), discreet _⟩ c there
  · exact ⟨[], .pure c there⟩

theorem exists_aroundBody (discreet : ∀ inst, Discreet (body inst).run) (c : Collector) (w : World σ ν) :
    ∃ steps more, AroundBody env body c w ((aroundBody c body).goes env w) steps more := by
  obtain ⟨steps, first⟩ := exists_stretch_body env discreet c w
  have parts : aroundBody c body = (do
      let c ← callbacks .beforeTestExecution >>= collectUntilError c
      proceedIf c.isEmpty c fun c => do collect c (body (← innermost?))) >>= fun c =>
        showException c >>= fun _ => callbacks .afterTestExecution >>= collectAll c := by
    simp only [aroundBody, bind_assoc]
  rw [parts, Engine.goes_bind]
  rcases ended : Engine.goes _ env w with ⟨h | c', w'⟩ <;> rw [ended] at first
  · exact ⟨steps, [], .of_stretch first⟩
  · obtain rfl := first.gathered c' rfl
    have same : w'.shows = w.shows := first.shows
    obtain ⟨more, second⟩ := Stretch.shown env .afterTestExecution (c.fed steps) w'
    rw [same] at second
    refine ⟨steps, more, first.walk.trans second.walk, first.each, second.each, fun e => ?_, fun c' ok => ?_⟩
    · simp [second.shows]
    · rw [second.gathered c' ok, Collector.fed_append]

/-- What comes before the callbacks after each test. -/
theorem exists_untilAfterEach (discreet : ∀ inst, Discreet (body inst).run) (w : World σ ν) :
    ∃ steps more, AroundBody env body .empty w ((do
      let c ← callbacks .beforeEach >>= collectUntilError .empty
      proceedIf c.isEmpty c fun c => aroundBody c body : Engine σ ν Collector).goes env w) steps more := by
  obtain ⟨earlier, first⟩ := Stretch.callbacks env (Stretch.collectUntilError env) .beforeEach .empty (w := w) rfl
  have first : Stretch env (·.IsBefore body) w.shows .empty w _ earlier := first.mono fun _ => .inl
  rw [Engine.goes_bind]
  rcases ended : Engine.goes _ env w with ⟨h | c, w'⟩ <;> rw [ended] at first
  · exact ⟨earlier, [], .of_stretch first⟩
  · have entered : ∃ steps more, AroundBody env body c w'
        ((proceedIf c.isEmpty c fun c => aroundBody c body).goes env w') steps more := by
      unfold proceedIf
      split
      · exact exists_aroundBody env discreet c w'
      · exact ⟨[], [], .of_stretch (.pure c rfl)⟩
    obtain ⟨steps, more, h⟩ := entered
    exact ⟨earlier ++ steps, more, .behind first h⟩

/-- What a leaf does once its instances are there. -/
structure LeafCourse.Leads (env : Environment σ ν) (body : Option TestInstance → Attempt σ ν Unit)
    (created : List Level) (w w' : World σ ν) (x : LeafCourse σ ν) : Prop where
  walk : Walk env w x.steps w'
  before : ∀ s ∈ x.before, s.IsBefore body ∧ s.start.shows = w.shows
  afterExecution : ∀ s ∈ x.afterExecution,
    s.IsCallback .afterTestExecution ∧ s.start.shows = exhibit x.atExecution w.shows
  late : ∀ s ∈ x.late,
    (s.IsCallback .afterEach ∨ s.IsFarewell created) ∧ s.start.shows = exhibit x.atEnd w.shows

theorem exists_leafSteps (discreet : ∀ inst, Discreet (body inst).run) (created : List Level) (w : World σ ν) :
    ∃ x : LeafCourse σ ν, x.Leads env body created w ((leafSteps body).goes env w).2 ∧
      ∀ c, ((leafSteps body).goes env w).1 = .ok c →
        ((leafSteps body).goes env w).2.shows = exhibit x.atEnd w.shows := by
  obtain ⟨steps, more, h⟩ := exists_untilAfterEach env discreet w
  have parts : leafSteps body = (do
      let c ← callbacks .beforeEach >>= collectUntilError .empty
      proceedIf c.isEmpty c fun c => aroundBody c body) >>= fun c =>
        showException c >>= fun _ => callbacks .afterEach >>= collectAll c := by
    simp only [leafSteps, bind_assoc]
  rw [parts, Engine.goes_bind]
  rcases ended : Engine.goes _ env w with ⟨halt | c, w'⟩ <;> rw [ended] at h
  · exact ⟨⟨steps, more, []⟩, ⟨by simpa [LeafCourse.steps] using h.walk, h.before, h.after, nofun⟩, nofun⟩
  · obtain rfl := h.gathered c rfl
    obtain ⟨late, last⟩ := Stretch.shown env .afterEach (Collector.empty.fed (steps ++ more)) w'
    rw [h.shows] at last
    refine ⟨⟨steps, more, late⟩, ⟨h.walk.trans last.walk, h.before, h.after, ?_⟩, fun _ _ => last.shows⟩
    exact fun s member => (last.each s member).imp_left .inl

theorem goes_destroy (created : List Level) (c : Collector) (w : World σ ν) :
    ((collect c (destroy created)).goes env w).2 = ((collectAll .empty
      (created.reverse.flatMap fun level => farewells level (w.extensions .instancePreDestroy))).goes env w).2 := by
  have raised (c : Collector) (w : World σ ν) : (raise c).run.goes env w =
      (.ok (c.primary.elim (.ok ()) fun e => .error (.error e)), w) := by
    unfold raise Engine.raising
    cases c.primary <;> rfl
  have destroyed : (destroy created).run.goes env w =
      ((ExceptT.lift (collectAll .empty (created.reverse.flatMap fun level =>
        farewells level (w.extensions .instancePreDestroy))) >>= raise : Attempt σ ν Unit).run).goes env w := rfl
  rw [collect, Engine.goes_bind, destroyed, ExceptT.run_bind_lift, Engine.goes_bind]
  rcases Engine.goes _ env w with ⟨h | c', w'⟩
  · rfl
  · simp only [raised]
    rfl

/-- Those that are created for the leaf are shown what the callbacks after each test are shown. -/
theorem exists_destroy (created : List Level) (c : Collector) (w : World σ ν) :
    ∃ steps, Walk env w steps ((collect c (destroy created)).goes env w).2 ∧
      ∀ s ∈ steps, s.IsFarewell created ∧ s.start.shows = w.shows := by
  have suits (code : Attempt σ ν Unit) (member : code ∈ created.reverse.flatMap fun level =>
      farewells level (w.extensions .instancePreDestroy)) : Suits (·.IsFarewell created) w.shows code := by
    obtain ⟨level, among, farewell⟩ := List.mem_flatMap.mp member
    refine ⟨fun w' _ there => ⟨level, List.mem_reverse.mp among, ?_⟩, (Discreet.tenure σ ν).farewell farewell⟩
    rwa [World.extensions_congr there]
  obtain ⟨steps, h⟩ := Stretch.collectAll env suits .empty rfl
  exact ⟨steps, goes_destroy env created c w ▸ h.walk, h.each⟩

theorem exists_leaf (discreet : ∀ inst, Discreet (body inst).run) {created : List Level} {w w' : World σ ν}
    (instantiated : instantiate.run.goes env w = (.ok (.ok created), w')) :
    ∃ x : LeafCourse σ ν, x.Leads env body created w' ((leaf body).goes env w).2 := by
  obtain ⟨x, leads, shows⟩ := exists_leafSteps env discreet created w'
  rw [leaf, Engine.goes_bind, instantiated]
  show ∃ x : LeafCourse σ ν, x.Leads env body created w' ((leafSteps body >>= _).goes env w').2
  rw [Engine.goes_bind]
  rcases ended : (leafSteps body).goes env w' with ⟨h | c, w₁⟩ <;> rw [ended] at leads shows
  · exact ⟨x, leads⟩
  · obtain ⟨farewells, walk, each⟩ := exists_destroy env created c w₁
    rw [show w₁.shows = _ from shows c rfl] at each
    have done : ((do return (← collect c (destroy created)).toResult : Engine σ ν ExecutionResult).goes env w₁).2 =
        ((collect c (destroy created)).goes env w₁).2 := by
      rw [Engine.goes_bind]
      rcases (collect c (destroy created)).goes env w₁ with ⟨_ | _, _⟩ <;> rfl
    refine ⟨{ x with late := x.late ++ farewells }, ⟨?_, leads.before, leads.afterExecution, ?_⟩⟩
    · rw [done]
      simpa [LeafCourse.steps] using leads.walk.trans walk
    · exact List.forall_mem_append.mpr ⟨leads.late, fun s member => (each s member).imp_left .inr⟩

/-- What is shown is what the code has in its view. -/
theorem LeafStep.exception_eq {d : Descriptor σ ν} (begins : w.Begins d) {s : LeafStep σ ν} {e : Option TestError}
    (shows : s.start.shows = exhibit e w.shows) : s.exception env = e := by
  obtain ⟨f, above, frames, _⟩ := begins
  unfold World.shows at shows
  rw [frames, List.map_cons] at shows
  obtain ⟨f', above', frames', same, _⟩ := List.map_eq_cons_iff.mp shows
  unfold exception
  rw [frames']
  exact (Prod.mk.inj same).2

end

inductive LeafBody (σ ν : Type) where
  | method (m : Method σ ν Unit) (limit : Option Duration)
  | factory (f : Factory σ ν)

namespace LeafBody

/-- What is run between the callbacks of the node `d`. -/
def code (d : Descriptor σ ν) : LeafBody σ ν → Option TestInstance → Attempt σ ν Unit
  | .method m limit => invokeTest m limit
  | .factory f => runFactory f d

/-- The limit of a method is its own, or else the one that is configured. -/
def limit (env : Environment σ ν) : LeafBody σ ν → Option Duration
  | .method _ limit => limit.orElse fun _ => env.settings.defaultTimeout
  | .factory _ => none

theorem discreet (d : Descriptor σ ν) (b : LeafBody σ ν) (inst : Option TestInstance) :
    Discreet (b.code d inst).run := by
  have engine := Discreet.tenure σ ν
  cases b with
  | method m limit => exact engine.invokeTest m limit inst
  | factory f => exact engine.runFactory f inst

end LeafBody

private def noting (outcome : Except TestError Unit) : Code Unit (Option String) Unit :=
  .look fun v => .note (v.exception.map (·.message)) (.done outcome)

private def onlooker : Extension Unit (Option String) :=
  { name := "onlooker", beforeEach := some (.code (noting (.ok ())))
    afterTestExecution := some (noting (.error (.failure "broke"))), afterEach := some (.code (noting (.ok ()))) }

private def givenUp : Method Unit (Option String) Unit :=
  { signature := { name := "attempt" }, body := fun _ => noting (.error (.aborted "gave up")) }

private def onlooked : World Unit (Option String) :=
  { user := ()
    frames := [
      { descriptor := { id := default, displayName := "attempt", kind := .test, role := .test givenUp }
        registry := ⟨⟨.method, [⟨onlooker, .default, .method⟩]⟩, []⟩, lifecycle := .perMethod }] }

end TestEngine

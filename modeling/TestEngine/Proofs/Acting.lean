import TestEngine.Proofs.Discipline

/-! User code runs within the steps of one node. It may panic, but its panic is an outcome: it breaks
nothing off. -/
namespace TestEngine
variable {σ ν α β δ : Type}

/-- The run may be broken off, but not by a panic. -/
def Calm (h : Halt) (_ : List δ) : Prop := ∀ payload, h ≠ .panicked payload

theorem Calm.no_panic {told : List δ} {P : PanicPayload → Prop} (calm : Calm halt told) :
    ∀ payload, halt = .panicked payload → P payload :=
  fun payload panicked => absurd panicked (calm payload)

namespace Goes
variable {T : Telling ν δ} {env : Environment σ ν} {sites : List (Site σ ν)}

theorem calm_mono {m : Engine σ ν α} {S R : α → List δ → Prop} (h : Goes T env sites m S Calm)
    (ended : ∀ a xs, S a xs → R a xs) : Goes T env sites m R Calm :=
  h.mono ended fun _ _ calm => calm

theorem calm_bind {m : Engine σ ν α} {k : α → Engine σ ν β} {S : α → List δ → Prop} {R : β → List δ → Prop}
    (first : Goes T env sites m S Calm)
    (second : ∀ a xs, S a xs → Goes T env sites (k a) (fun b ys => R b (xs ++ ys)) Calm) :
    Goes T env sites (m >>= k) R Calm :=
  first.bind second fun _ _ calm => calm

theorem calm_attempt_bind {m : Attempt σ ν α} {k : α → Attempt σ ν β}
    {S : Except Fault α → List δ → Prop} {R : Except Fault β → List δ → Prop}
    (first : Goes T env sites m.run S Calm)
    (second : ∀ a xs, S (.ok a) xs → Goes T env sites (k a).run (fun b ys => R b (xs ++ ys)) Calm)
    (faulty : ∀ f xs, S (.error f) xs → R (.error f) xs) : Goes T env sites (m >>= k).run R Calm :=
  first.attempt_bind second faulty fun _ _ calm => calm

theorem calm_lift_bind {m : Engine σ ν α} {k : α → Attempt σ ν β} {S : α → List δ → Prop}
    {R : Except Fault β → List δ → Prop} (first : Goes T env sites m S Calm)
    (second : ∀ a xs, S a xs → Goes T env sites (k a).run (fun b ys => R b (xs ++ ys)) Calm) :
    Goes T env sites (ExceptT.lift m >>= k).run R Calm :=
  first.lift_bind second fun _ _ calm => calm

end Goes

def faultOf : Except Fault α → Option Fault
  | .ok _ => none
  | .error fault => some fault

theorem Goes.raising {T : Telling ν δ} {env : Environment σ ν} {sites : List (Site σ ν)}
    {E : Halt → List δ → Prop} (wrong : Option TestError) :
    Goes T env sites (Engine.raising wrong).run
      (fun outcome xs => xs = [] ∧ faultOf outcome = wrong.map .error) E := by
  cases wrong <;> exact .pure ⟨rfl, rfl⟩

def idOf (sites : List (Site σ ν)) : UniqueId := (sites.head?.map (·.descriptor.id)).getD default

theorem World.currentId_eq (w : World σ ν) : w.currentId = idOf (w.frames.map Frame.site) := by
  unfold World.currentId idOf
  cases w.frames <;> rfl

theorem World.trace_mark (w : World σ ν) (s : Step) (phase : Phase) :
    (w.mark s phase).trace.toList = w.trace.toList ++ [.step w.currentId s phase] := by
  simp [World.mark]

/-- A step with which a watcher is told how a node fares. -/
def Step.isWatcher : Step → Bool
  | .watcher _ => true
  | _ => false

theorem Step.isWatcher_of_isAsking {s : Step} (asking : s.isAsking = true) : s.isWatcher = false := by
  cases s <;> first | contradiction | rfl

inductive Act.Unwatched : Act ν → Prop where
  | note : Unwatched (.note n)
  | published : Unwatched (.published node values)
  | step : s.isWatcher = false → (∀ a ∈ inside, Unwatched a) → Unwatched (.step s inside fault)
  | cut : s.isWatcher = false → (∀ a ∈ inside, Unwatched a) → Unwatched (.cut s inside)

/-- Acts of one node, which are held to a law. -/
def Telling.acts (timed : Prop) (law : Act ν → Prop) (id : UniqueId) : Telling ν (Act ν) where
  entries := Act.entriesAll id
  lawful := law
  timed := timed
  nil := rfl
  append := Act.entriesAll_append id

/-- The code only takes acts of the node the run is at, and tells no watcher. -/
abbrev Performs (timed : Prop) (env : Environment σ ν) (sites : List (Site σ ν)) (m : Engine σ ν α)
    (S : α → List (Act ν) → Prop) : Prop := Goes (.acts timed Act.Unwatched (idOf sites)) env sites m S Calm

def Quiet (m : Engine σ ν α) : Prop := ∀ timed env sites, Performs timed env sites m fun _ _ => True

/-- The code is one step of a kind, which lasts until it ends. -/
def TakesStep (P : Step → Prop) (code : Attempt σ ν α) : Prop :=
  ∀ timed env sites, Performs timed env sites code.run fun outcome acts =>
    ∃ s inside, P s ∧ acts = [.step s inside (faultOf outcome)]

namespace Performs
variable {timed : Prop} {env : Environment σ ν} {sites : List (Site σ ν)}

theorem note (n : ν) : Performs timed env sites (Engine.append (.note n)) fun _ acts => acts = [.note n] :=
  .append [.note n] _ rfl (List.forall_mem_singleton.mpr Act.Unwatched.note) rfl

theorem publish (node : Node) (values : Dictionary String) :
    Performs timed env sites (Engine.report node (.entry values)) fun _ acts => acts = [.published node values] :=
  .append [.published node values] _ rfl (List.forall_mem_singleton.mpr Act.Unwatched.published) rfl

/-- A step is a single act. -/
theorem taken {law : Act ν → Prop} {code : Attempt σ ν α} {S : Except Fault α → List (Act ν) → Prop}
    (h : Performs timed env sites code.run S) (s : Step)
    (lawful : ∀ inside, (∀ a ∈ inside, a.Unwatched) → (∀ fault, law (.step s inside fault)) ∧ law (.cut s inside)) :
    Goes (.acts timed law (idOf sites)) env sites (Engine.step s code).run (fun outcome acts =>
      ∃ inside, S outcome inside ∧ acts = [.step s inside (faultOf outcome)]) Calm := by
  intro w there fresh
  obtain ⟨inside, adds, ends⟩ := h (w.mark s .began) there fresh
  have first : w.currentId = idOf sites := by rw [World.currentId_eq, there]
  have last : (code.run.goes env (w.mark s .began)).2.currentId = idOf sites := by
    rw [World.currentId_eq, adds.sites]
    exact congrArg idOf there
  have trace : ((Engine.step s code).run.goes env w).2.trace.toList = w.trace.toList ++
      (.step (idOf sites) s .began :: (Act.entriesAll (idOf sites) inside
        ++ [.step (idOf sites) s (.ofOutcome (code.run.goes env (w.mark s .began)).1)])) := by
    rw [Engine.goes_step, World.trace_mark, last, adds.trace, World.trace_mark, first]
    simp [Telling.acts]
  have kept : ((Engine.step s code).run.goes env w).2.frames.map Frame.site
      = w.frames.map Frame.site := adds.sites
  obtain ⟨ended, cut⟩ := lawful inside adds.lawful
  cases outcome : (code.run.goes env (w.mark s .began)).1 with
  | error h =>
    rw [outcome] at ends trace
    refine ⟨[.cut s inside], ⟨kept, ?_, List.forall_mem_singleton.mpr cut, adds.abandoned⟩, ?_⟩
    · simpa [Telling.acts, Act.entriesAll, Act.entries, Phase.ofOutcome] using trace
    · rw [Engine.goes_step, outcome]
      exact ends
  | ok value =>
    rw [outcome] at ends trace
    refine ⟨[.step s inside (faultOf value)], ⟨kept, ?_, List.forall_mem_singleton.mpr (ended _), adds.abandoned⟩, ?_⟩
    · cases value <;>
        simpa [Telling.acts, Act.entriesAll, Act.entries, Phase.ofOutcome, faultOf] using trace
    · rw [Engine.goes_step, outcome]
      exact ⟨inside, ends, rfl⟩

theorem step {code : Attempt σ ν α} {S : Except Fault α → List (Act ν) → Prop}
    (h : Performs timed env sites code.run S) (s : Step) (unwatched : s.isWatcher = false) :
    Performs timed env sites (Engine.step s code).run fun outcome acts =>
      ∃ inside, S outcome inside ∧ acts = [.step s inside (faultOf outcome)] :=
  h.taken s fun _ each => ⟨fun _ => .step unwatched each, .cut unwatched each⟩

theorem raising (s : Step) (unwatched : s.isWatcher = false) (wrong : Option TestError) :
    Performs timed env sites (Engine.step s (Engine.raising wrong)).run fun outcome acts =>
      acts = [.step s [] (wrong.map .error)] ∧ faultOf outcome = wrong.map .error := by
  apply (step (Goes.raising wrong) s unwatched).calm_mono
  rintro outcome _ ⟨_, ⟨rfl, same⟩, rfl⟩
  exact ⟨by rw [same], same⟩

end Performs

namespace Quiet

theorem of_performs {m : Engine σ ν α} {S : Environment σ ν → List (Site σ ν) → α → List (Act ν) → Prop}
    (h : ∀ timed env sites, Performs timed env sites m (S env sites)) : Quiet m :=
  fun timed env sites => (h timed env sites).calm_mono (fun _ _ _ => trivial)

theorem pure (a : α) : Quiet (pure a : Engine σ ν α) := fun _ _ _ => .pure trivial

theorem bind {m : Engine σ ν α} {k : α → Engine σ ν β} (first : Quiet m) (second : ∀ a, Quiet (k a)) :
    Quiet (m >>= k) := fun timed env sites =>
  (first timed env sites).calm_bind (fun a _ _ => second a timed env sites)

theorem halt (calm : ∀ payload, h ≠ .panicked payload) : Quiet (Engine.halt h : Engine σ ν α) :=
  fun _ _ _ => .halt calm

/-- Code that changes neither sites nor the trace, gives no instance up and does not break off. -/
theorem silent {m : Engine σ ν α} (h : ∀ env w, (m.goes env w).1.isOk ∧
    (m.goes env w).2.frames.map Frame.site = w.frames.map Frame.site ∧
    (m.goes env w).2.trace = w.trace ∧ (m.goes env w).2.abandoned = w.abandoned) : Quiet m := by
  refine fun timed env sites => .silent fun w _ => ⟨(h env w).2.1, (h env w).2.2.1, (h env w).2.2.2, ?_⟩
  have ok := (h env w).1
  cases outcome : (m.goes env w).1 with
  | error => simp [outcome, Except.isOk, Except.toBool] at ok
  | ok => trivial

theorem step {code : Attempt σ ν α} (h : Quiet code.run) (s : Step) (unwatched : s.isWatcher = false) :
    Quiet (Engine.step s code).run := of_performs fun timed env sites => (h timed env sites).step s unwatched

end Quiet

theorem Act.entriesAll_note (id : UniqueId) (notes : List ν) :
    Act.entriesAll id (notes.map .note) = notes.map .note := by
  induction notes with
  | nil => rfl
  | cons n notes ih => simp only [List.map_cons, entriesAll, entries, ih, List.singleton_append]

theorem Engine.performs_act (action : Action σ ν α) (timed : Prop) (env : Environment σ ν)
    (sites : List (Site σ ν)) : Performs timed env sites (act action) fun outcome acts =>
      ∃ user, outcome = (action user).1 ∧ acts = (action user).2.1.map .note := by
  intro w there _
  refine ⟨(action w.user).2.1.map .note, ⟨rfl, ?_, List.forall_mem_map.mpr fun _ _ => .note, .inr rfl⟩, w.user,
    rfl, rfl⟩
  show (w.trace ++ ((action w.user).2.1.map Entry.note).toArray).toList = _
  simp [Telling.acts, Act.entriesAll_note]

/-- User code adds acts only. -/
theorem Quiet.discipline (σ ν : Type) : Discipline (σ := σ) (ν := ν) fun _ m => Quiet m := by
  apply Discipline.of_silent
  · intro α m h
    refine .silent fun env w => ?_
    obtain ⟨ok, silent⟩ := h env w
    exact ⟨ok, World.sites_congr silent.stands, silent.trace, silent.abandoned⟩
  · exact .halt
  · exact .bind
  · exact fun n => .of_performs fun _ _ _ => .note n
  · exact fun node values => .of_performs fun _ _ _ => .publish node values
  · exact fun action => .of_performs (Engine.performs_act action)
  · exact fun quiet asking => quiet.step _ (Step.isWatcher_of_isAsking asking)

/-- What code of the user does. It takes no steps but those in which it has other code of the user asked. -/
inductive Act.OfUser : Act ν → Prop where
  | note : OfUser (.note n)
  | published : OfUser (.published node values)
  | asks : s.isAsking = true → (∀ a ∈ inside, OfUser a) → OfUser (.step s inside fault)

/-- Wherever the run is, the code does only what code of the user does. -/
def ActsAsUser (m : Engine σ ν α) : Prop :=
  ∀ timed env sites, Performs timed env sites m fun _ acts => ∀ a ∈ acts, a.OfUser

theorem ActsAsUser.discipline (σ ν : Type) : Discipline (σ := σ) (ν := ν) fun _ m => ActsAsUser m := by
  apply Discipline.of_silent
  · intro α m h timed env sites
    refine .silent fun w _ => ?_
    obtain ⟨ok, silent⟩ := h env w
    refine ⟨World.sites_congr silent.stands, silent.trace, silent.abandoned, ?_⟩
    cases outcome : (m.goes env w).1 with
    | error => simp [outcome, Except.isOk, Except.toBool] at ok
    | ok => exact List.forall_mem_nil _
  · exact fun calm _ _ _ => .halt calm
  · intro α β m k first second timed env sites
    refine (first timed env sites).calm_bind fun a xs ofUser => (second a timed env sites).calm_mono ?_
    exact fun _ ys more => List.forall_mem_append.mpr ⟨ofUser, more⟩
  · exact fun n _ _ _ => (Performs.note n).calm_mono fun _ _ same => same ▸ List.forall_mem_singleton.mpr .note
  · exact fun node values _ _ _ =>
      (Performs.publish node values).calm_mono fun _ _ same => same ▸ List.forall_mem_singleton.mpr .published
  · intro α action timed env sites
    apply (Engine.performs_act action timed env sites).calm_mono
    rintro _ _ ⟨user, rfl, rfl⟩
    exact List.forall_mem_map.mpr fun _ _ => .note
  · intro α code s h asking timed env sites
    apply ((h timed env sites).step s (Step.isWatcher_of_isAsking asking)).calm_mono
    rintro _ _ ⟨inside, ofUser, rfl⟩
    exact List.forall_mem_singleton.mpr (.asks asking ofUser)

namespace Engine

theorem quiet_occupying (inst : TestInstance) {code : Attempt σ ν α} (h : Quiet code.run) :
    Quiet (occupying inst code).run := (Quiet.discipline σ ν).occupying inst h

/-- Where a deadline passes, that is an outcome too. -/
theorem quiet_before (deadline : Duration) (label : String) {code : Attempt σ ν α} (h : Quiet code.run) :
    Quiet (before deadline label code).run := by
  intro _ env sites w there fresh
  obtain ⟨told, adds, ends⟩ := h _ env sites { w with timeLeft := some deadline } there fresh
  refine ⟨told, ⟨adds.sites, adds.trace, adds.lawful, adds.abandoned⟩, ?_⟩
  show Ends _ _ (timed deadline label (code.run.goes env { w with timeLeft := some deadline }).1) told
  rcases outcome : (code.run.goes env { w with timeLeft := some deadline }).1 with (_ | _) | (_ | _)
  all_goals simp_all [timed, Ends, Calm]

end Engine

namespace Execution

/-- A condition is asked, which is code of the user. -/
def AsksCondition (a : Act ν) : Prop :=
  ∃ name inside fault, a = .step (.condition name) inside fault ∧ ∀ b ∈ inside, b.OfUser

/-- A condition that fails is an error of the configuration. -/
theorem performs_askConditions {run : Runner σ ν} (ofUser : ∀ {α} (code : Program σ ν α), ActsAsUser (run code))
    (deactivated : List (String → Bool)) (es : List (Extension σ ν)) (timed : Prop) (env : Environment σ ν)
    (sites : List (Site σ ν)) :
    Performs timed env sites (askConditions run deactivated es) fun verdict acts =>
      (∀ a ∈ acts, AsksCondition a) ∧ ∀ e, verdict = .error e → e.isAborted = false := by
  induction es with
  | nil => exact .pure ⟨List.forall_mem_nil _, by simp⟩
  | cons e es ih =>
    unfold askConditions
    split
    · exact ih
    · rename_i code _
      split
      · exact ih
      · have called := (ActsAsUser.discipline σ ν).call ofUser code timed env sites
        apply (called.step (.condition e.name) rfl).calm_bind
        rintro outcome _ ⟨inside, ofUser, rfl⟩
        have asked : AsksCondition (.step (.condition e.name) inside (faultOf outcome)) :=
          ⟨_, _, _, rfl, ofUser⟩
        split
        · refine .pure ⟨by simpa using asked, fun _ same => ?_⟩
          cases same
          rfl
        · exact .pure ⟨by simpa using asked, by simp⟩
        · refine ih.calm_mono ?_
          rintro _ _ ⟨others, configured⟩
          exact ⟨List.forall_mem_append.mpr ⟨List.forall_mem_singleton.mpr asked, others⟩, configured⟩

theorem performs_evaluateWith {run : Runner σ ν} (ofUser : ∀ {α} (code : Program σ ν α), ActsAsUser (run code))
    (deactivated : List (String → Bool)) (timed : Prop) (env : Environment σ ν) (sites : List (Site σ ν)) :
    Performs timed env sites (evaluateWith run deactivated) fun verdict acts =>
      (∀ a ∈ acts, AsksCondition a) ∧ ∀ e, verdict = .error e → e.isAborted = false := by
  refine (Goes.extensions _).calm_bind ?_
  rintro es _ ⟨rfl, _⟩
  exact performs_askConditions ofUser _ es timed env sites

theorem quiet_run (code : Program σ ν α) : Quiet (run code) := (Quiet.discipline σ ν).run code

theorem quiet_perform (code : Code σ ν α) : Quiet (perform code).run := (Quiet.discipline σ ν).perform code

theorem quiet_invoke (m : Method σ ν α) (inst : Option TestInstance) : Quiet (invoke m inst).run :=
  (Quiet.discipline σ ν).invoke m inst

end Execution
end TestEngine

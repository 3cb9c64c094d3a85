import TestEngine.Proofs.Telling

/-! What all code of the user has in common. The engine runs it by a few operations of its own. A property that
these have, and that goes over from the parts of code to the whole, is one of all code of the user. -/
namespace TestEngine
variable {σ ν α β : Type}

/-- The site of a frame, with the chain held there. Stores and other things of the user are left out. -/
def Frame.stand (f : Frame σ ν) : Site σ ν × Option (List Level) := (f.site, f.instances)

theorem World.sites_congr {w w' : World σ ν} (same : w'.frames.map Frame.stand = w.frames.map Frame.stand) :
    w'.frames.map Frame.site = w.frames.map Frame.site := by
  simpa [Frame.stand, Function.comp_def] using congrArg (List.map Prod.fst) same

/-- Changing one of the frames leaves what it has no bearing on. -/
theorem Frame.map_modify {part : Frame σ ν → β} (frames : List (Frame σ ν)) (level : Nat)
    (change : Frame σ ν → Frame σ ν) (kept : ∀ f, part (change f) = part f) :
    (frames.modify level change).map part = frames.map part := by
  induction frames generalizing level with
  | nil => simp
  | cons f fs ih =>
    cases level with
    | zero => simp [kept]
    | succ level => simp [ih]

def Step.isAsking : Step → Bool
  | .resolver _ _ | .condition _ => true
  | _ => false

/-- Nothing is marked from one world to another, frames stay as they stand, and no instance is given up. -/
structure World.Silent (w w' : World σ ν) : Prop where
  stands : w'.frames.map Frame.stand = w.frames.map Frame.stand
  trace : w'.trace = w.trace
  next : w.nextNumber ≤ w'.nextNumber
  abandoned : w'.abandoned = w.abandoned

theorem World.Silent.refl (w : World σ ν) : w.Silent w := ⟨rfl, rfl, Nat.le_refl _, rfl⟩

structure World.Still (w w' : World σ ν) : Prop extends w.Silent w' where
  stores : w'.frames.map (·.store) = w.frames.map (·.store)
  exceptions : w'.frames.map (·.exception) = w.frames.map (·.exception)

theorem World.Still.of_frames {w w' : World σ ν} (frames : w'.frames = w.frames) (trace : w'.trace = w.trace)
    (next : w.nextNumber ≤ w'.nextNumber) (abandoned : w'.abandoned = w.abandoned) : w.Still w' :=
  ⟨⟨by rw [frames], trace, next, abandoned⟩, by rw [frames], by rw [frames]⟩

theorem World.Still.refl (w : World σ ν) : w.Still w := .of_frames rfl rfl (Nat.le_refl _) rfl

/-- A property that goes over from the parts of code to the whole, and that the operations have by which code of
the user is run. -/
structure Discipline (P : (α : Type) → Engine σ ν α → Prop) : Prop where
  still : ∀ {α} {m : Engine σ ν α}, (∀ env w, (m.goes env w).1.isOk ∧ w.Still (m.goes env w).2) → P α m
  halt : ∀ {α} {h : Halt}, (∀ payload, h ≠ .panicked payload) → P α (Engine.halt h)
  bind : ∀ {α β} {m : Engine σ ν α} {k : α → Engine σ ν β}, P α m → (∀ a, P β (k a)) → P β (m >>= k)
  note : ∀ n, P Unit (Engine.append (.note n))
  publish : ∀ node values, P Unit (Engine.report node (.entry values))
  act : ∀ {α} (action : Action σ ν α), P _ (Engine.act action)
  askStore : ∀ levelsUp key request, P _ (Engine.askStore levelsUp key request)
  step : ∀ {α} {code : Attempt σ ν α} {s : Step}, P _ code.run → s.isAsking = true → P _ (Engine.step s code).run

namespace Discipline
variable {P : (α : Type) → Engine σ ν α → Prop}

theorem pure (d : Discipline P) (a : α) : P α (pure a) := d.still fun _ w => ⟨rfl, .refl w⟩

theorem map (d : Discipline P) {m : Engine σ ν α} (h : P α m) (f : α → β) : P β (f <$> m) := by
  rw [map_eq_pure_bind]
  exact d.bind h fun _ => d.pure _

theorem attempt_bind (d : Discipline P) {m : Attempt σ ν α} {k : α → Attempt σ ν β} (first : P _ m.run)
    (second : ∀ a, P _ (k a).run) : P _ (m >>= k).run := by
  rw [ExceptT.run_bind]
  refine d.bind first fun outcome => ?_
  cases outcome with
  | ok a => exact second a
  | error fault => exact d.pure _

theorem lift (d : Discipline P) {m : Engine σ ν α} (h : P α m) : P _ (ExceptT.lift m : Attempt σ ν α).run := by
  rw [ExceptT.run_lift]
  exact d.map h _

/-- Code that only reads. -/
theorem reads (d : Discipline P) {m : Engine σ ν α} (h : ∀ env w, ∃ a, m.goes env w = (.ok a, w)) : P α m := by
  refine d.still fun env w => ?_
  obtain ⟨a, same⟩ := h env w
  rw [same]
  exact ⟨rfl, .refl w⟩

theorem modify (d : Discipline P) (change : World σ ν → World σ ν) (still : ∀ w : World σ ν, w.Still (change w)) :
    P _ (modify change : Engine σ ν PUnit) := d.still fun _ w => ⟨rfl, still w⟩

/-- Where the contents of stores have no bearing on the property, there is nothing to asking a store. -/
theorem of_silent
    (silent : ∀ {α} {m : Engine σ ν α}, (∀ env w, (m.goes env w).1.isOk ∧ w.Silent (m.goes env w).2) → P α m)
    (halt : ∀ {α} {h : Halt}, (∀ payload, h ≠ .panicked payload) → P α (Engine.halt h))
    (bind : ∀ {α β} {m : Engine σ ν α} {k : α → Engine σ ν β}, P α m → (∀ a, P β (k a)) → P β (m >>= k))
    (note : ∀ n, P Unit (Engine.append (.note n)))
    (publish : ∀ node values, P Unit (Engine.report node (.entry values)))
    (act : ∀ {α} (action : Action σ ν α), P _ (Engine.act action))
    (step : ∀ {α} {code : Attempt σ ν α} {s : Step}, P _ code.run → s.isAsking = true →
      P _ (Engine.step s code).run) : Discipline P where
  still h := silent fun env w => ⟨(h env w).1, (h env w).2.toSilent⟩
  halt := halt
  bind := bind
  note := note
  publish := publish
  act := act
  step := step
  askStore levelsUp key request := by
    have reads {α : Type} (m : Engine σ ν α) (h : ∀ env w, ∃ a, m.goes env w = (.ok a, w)) : P α m := by
      refine silent fun env w => ?_
      obtain ⟨a, same⟩ := h env w
      rw [same]
      exact ⟨rfl, .refl w⟩
    refine bind (reads Engine.frames fun _ _ => ⟨_, rfl⟩) fun fs => ?_
    dsimp only
    split
    · exact reads _ fun _ _ => ⟨_, rfl⟩
    · refine bind (act _) fun outcome => ?_
      split
      · exact reads _ fun _ _ => ⟨_, rfl⟩
      · refine bind (silent fun _ w => ⟨rfl, ?_, rfl, Nat.le_refl _, rfl⟩) fun _ => reads _ fun _ _ => ⟨_, rfl⟩
        exact Frame.map_modify _ _ _ fun _ => rfl

theorem get (d : Discipline P) : P _ (get : Engine σ ν (World σ ν)) := d.reads fun _ _ => ⟨_, rfl⟩

theorem settings (d : Discipline P) : P _ (Engine.settings : Engine σ ν Settings) := d.reads fun _ _ => ⟨_, rfl⟩

theorem frames (d : Discipline P) : P _ (Engine.frames : Engine σ ν (List (Frame σ ν))) :=
  d.reads fun _ _ => ⟨_, rfl⟩

theorem top? (d : Discipline P) : P _ (Engine.top? : Engine σ ν (Option (Frame σ ν))) :=
  d.reads fun _ _ => ⟨_, rfl⟩

theorem instances? (d : Discipline P) : P _ (Engine.instances? : Engine σ ν (Option (List Level))) :=
  d.reads fun _ _ => ⟨_, rfl⟩

theorem extensions (d : Discipline P) (capability : Capability) :
    P _ (Engine.extensions capability : Engine σ ν (List (Extension σ ν))) := d.reads fun _ _ => ⟨_, rfl⟩

theorem view (d : Discipline P) : P _ (Engine.view : Engine σ ν View) := by
  refine d.reads fun env w => ?_
  cases w with
  | mk frames => cases frames <;> exact ⟨_, rfl⟩

theorem freshNumber (d : Discipline P) : P _ (Engine.freshNumber : Engine σ ν Nat) :=
  d.still fun _ _ => ⟨rfl, .of_frames rfl rfl (Nat.le_succ _) rfl⟩

theorem sleep (d : Discipline P) (time : Duration) : P _ (Engine.sleep time : Engine σ ν Unit) := by
  refine d.bind d.get fun w => ?_
  split
  · exact d.pure _
  · split
    · exact d.halt nofun
    · exact d.modify _ fun _ => .of_frames rfl rfl (Nat.le_refl _) rfl

theorem available (d : Discipline P) (inst : TestInstance) : P _ (Engine.available inst : Engine σ ν Bool) := by
  refine d.bind d.get fun w => ?_
  split
  · exact d.pure _
  · split
    · exact d.pure _
    · exact d.halt nofun

theorem lockInnermost (d : Discipline P) :
    P _ (Engine.lockInnermost : Engine σ ν (Option InstanceContent)) := by
  refine d.bind d.instances? fun chain => ?_
  split
  · exact d.pure _
  · exact d.bind (d.available _) fun _ => d.pure _

theorem occupying (d : Discipline P) (inst : TestInstance) {code : Attempt σ ν α} (h : P _ code.run) :
    P _ (Engine.occupying inst code).run := by
  refine d.bind (d.available inst) fun free => ?_
  split
  · refine d.bind (d.modify _ fun _ => .of_frames rfl rfl (Nat.le_refl _) rfl) fun _ => ?_
    refine d.bind h fun outcome => ?_
    exact d.bind (d.modify _ fun _ => .of_frames rfl rfl (Nat.le_refl _) rfl) fun _ => d.pure _
  · exact d.pure _

/-- Requests apart that run more user code, a program is made of the operations. -/
theorem runWith (d : Discipline P) {h : Execution.Handlers σ ν}
    (resolve : ∀ executable ps, P _ (h.resolve executable ps))
    (evaluate : ∀ deactivated, P _ (h.evaluate deactivated)) (code : Program σ ν α) : P _ (code.runWith h) := by
  induction code with
  | done value => exact d.pure _
  | panic payload => exact d.pure _
  | note n next ih => exact d.bind (d.note n) fun _ => ih
  | state change next ih => exact d.bind (d.still fun _ _ => ⟨rfl, .of_frames rfl rfl (Nat.le_refl _) rfl⟩) ih
  | look next ih => exact d.bind d.view ih
  | publish node values next ih => exact d.bind (d.publish node values) fun _ => ih
  | sleep time next ih => exact d.bind (d.sleep time) fun _ => ih
  | store levelsUp key request next ih => exact d.bind (d.askStore levelsUp key request) ih
  | fresh next ih => exact d.bind d.freshNumber ih
  | lockInnermost next ih => exact d.bind d.lockInnermost ih
  | resolve executable ps next ih => exact d.bind (resolve executable ps) ih
  | evaluate c next ih => exact d.bind (evaluate _) fun verdict => by cases verdict <;> exact ih _

section Runner
variable {run : Runner σ ν}

theorem call (d : Discipline P) (runs : ∀ {α} (code : Program σ ν α), P _ (run code)) (code : Code σ ν α) :
    P _ (Execution.call run code).run := by
  refine d.bind (runs code) fun outcome => ?_
  split <;> exact d.pure _

theorem relabel (d : Discipline P) (change : TestError → TestError) {code : Attempt σ ν α} (h : P _ code.run) :
    P _ (Execution.relabel change code).run := by
  refine d.bind h fun outcome => ?_
  split <;> exact d.pure _

theorem supporting (d : Discipline P) (runs : ∀ {α} (code : Program σ ν α), P _ (run code))
    (p : ParameterContext) (es : List (Extension σ ν)) : P _ (Execution.supporting run p es).run := by
  induction es with
  | nil => exact d.pure _
  | cons e es ih =>
    unfold Execution.supporting
    split
    · exact ih
    · refine d.attempt_bind (d.relabel _ (d.step (d.call runs _) rfl)) fun here => ?_
      exact d.attempt_bind ih fun others => d.pure _

theorem resolveParameter (d : Discipline P) (runs : ∀ {α} (code : Program σ ν α), P _ (run code))
    (p : ParameterContext) (es : List (Extension σ ν)) : P _ (Execution.resolveParameter run p es).run := by
  refine d.attempt_bind (d.supporting runs p es) fun found => ?_
  split
  · exact d.pure _
  · refine d.attempt_bind (d.relabel _ (d.step (d.call runs _) rfl)) fun v => ?_
    split <;> exact d.pure _
  · exact d.pure _

theorem resolveWith (d : Discipline P) (runs : ∀ {α} (code : Program σ ν α), P _ (run code))
    (executable : String) (ps : List Parameter) : P _ (Execution.resolveWith run executable ps).run := by
  refine d.attempt_bind (d.lift (d.extensions _)) fun es => ?_
  induction ps with
  | nil => exact d.pure _
  | cons p ps ih =>
    refine d.attempt_bind (d.resolveParameter runs _ es) fun v => ?_
    exact d.attempt_bind ih fun vs => d.pure _

theorem askConditions (d : Discipline P) (runs : ∀ {α} (code : Program σ ν α), P _ (run code))
    (deactivated : List (String → Bool)) (es : List (Extension σ ν)) :
    P _ (Execution.askConditions run deactivated es) := by
  induction es with
  | nil => exact d.pure _
  | cons e es ih =>
    unfold Execution.askConditions
    split
    · exact ih
    · split
      · exact ih
      · refine d.bind (d.step (d.call runs _) rfl) fun outcome => ?_
        split
        · exact d.pure _
        · exact d.pure _
        · exact ih

end Runner

theorem handlers (d : Discipline P) (depth : Nat) :
    (∀ executable ps, P _ ((Execution.handlers depth : Execution.Handlers σ ν).resolve executable ps)) ∧
      ∀ deactivated, P _ ((Execution.handlers depth : Execution.Handlers σ ν).evaluate deactivated) := by
  induction depth with
  | zero => exact ⟨fun _ _ => d.halt nofun, fun _ => d.halt nofun⟩
  | succ depth ih =>
    have runs {α} (code : Program σ ν α) := d.runWith ih.1 ih.2 code
    exact ⟨d.resolveWith runs, fun _ => d.bind (d.extensions _) fun _ => d.askConditions runs _ _⟩

theorem run (d : Discipline P) (code : Program σ ν α) : P _ (Execution.run code) :=
  have ⟨resolve, evaluate⟩ := d.handlers Program.nestingLimit
  d.runWith resolve evaluate code

theorem perform (d : Discipline P) (code : Code σ ν α) : P _ (Execution.perform code).run := d.call d.run code

theorem observe (d : Discipline P) (code : Program σ ν Unit) : P _ (Execution.observe code).run := by
  refine d.bind (d.run code) fun outcome => ?_
  split <;> exact d.pure _

theorem invoke (d : Discipline P) (m : Method σ ν α) (inst : Option TestInstance) :
    P _ (Execution.invoke m inst).run := by
  refine d.attempt_bind (d.resolveWith d.run _ _) fun arguments => ?_
  dsimp only
  split
  · exact d.perform _
  · exact d.occupying _ (d.perform _)

end Discipline
end TestEngine

import TestEngine.Proofs.History

/-! What a part of a run adds to the trace, told in larger parts than entries. Frames come and go, but
each stays at its site: what is told of a part of a run starts from the sites alone. -/
namespace TestEngine
variable {σ ν α β δ ε : Type}

/-- How code goes in an environment from a world: its outcome, and the world behind it. -/
def Engine.goes (m : Engine σ ν α) (env : Environment σ ν) (w : World σ ν) :
    Except Halt α × World σ ν := (m env).run w

/-- The extensions with a capability at the node the run is at. -/
def World.extensions (w : World σ ν) (capability : Capability) : List (Extension σ ν) :=
  ((w.frames.head?.map (·.registry.extensions capability)).getD [])

def viewOf (c : Configuration) (abandoned : List Nat) : List (Frame σ ν) → View
  | [] => default
  | f :: above =>
    { node := f.descriptor.node
      ancestors := above.map (·.descriptor.node)
      lifecycle := f.lifecycle
      instances := ((f :: above).findSome? (·.instances)).map fun chain =>
        chain.map fun level => ⟨level.className, level.inst.content, abandoned.contains level.inst.number⟩
      exception := f.exception
      registry :=
        { scope := f.registry.own.scope
          localCount := f.registry.own.registrations.length
          names := fun capability => (f.registry.extensions capability).map (·.name) }
      configuration := c }

namespace Engine

theorem goes_bind (m : Engine σ ν α) (k : α → Engine σ ν β) (env : Environment σ ν) (w : World σ ν) :
    (m >>= k).goes env w = match m.goes env w with
      | (.ok a, w') => (k a).goes env w'
      | (.error h, w') => (.error h, w') := by
  show (((m env >>= fun a => k a env) : ExceptT Halt (StateM (World σ ν)) β).run).run w = _
  rw [ExceptT.run_bind, StateT.run_bind]
  unfold goes
  show _ = match (m env).run.run w with
    | (.ok a, w') => (k a env).run w'
    | (.error h, w') => (.error h, w')
  rcases (m env).run.run w with ⟨outcome, w'⟩
  cases outcome <;> rfl

theorem goes_bind_congr {m : Engine σ ν α} {k k' : α → Engine σ ν β} {env : Environment σ ν} {w : World σ ν}
    (same : ∀ a w', m.goes env w = (.ok a, w') → (k a).goes env w' = (k' a).goes env w') :
    (m >>= k).goes env w = (m >>= k').goes env w := by
  rw [goes_bind, goes_bind]
  rcases outcome : m.goes env w with ⟨h | a, w'⟩
  · rfl
  · exact same a w' outcome

theorem goes_congr_bind {m m' : Engine σ ν α} {env : Environment σ ν} {w : World σ ν}
    (same : m.goes env w = m'.goes env w) (k : α → Engine σ ν β) :
    (m >>= k).goes env w = (m' >>= k).goes env w := by rw [goes_bind, goes_bind, same]

theorem goes_attempt_bind (m : Attempt σ ν α) (k : α → Attempt σ ν β) (env : Environment σ ν) (w : World σ ν) :
    (m >>= k).run.goes env w = match m.run.goes env w with
      | (.ok (.ok a), w') => (k a).run.goes env w'
      | (.ok (.error fault), w') => (.ok (.error fault), w')
      | (.error h, w') => (.error h, w') := by
  rw [ExceptT.run_bind, goes_bind]
  rcases m.run.goes env w with ⟨_ | _ | _, w'⟩ <;> rfl

theorem goes_within (f : Frame σ ν) (m : Engine σ ν α) (env : Environment σ ν) (w : World σ ν) :
    (within f m).goes env w =
      ((m.goes env { w with frames := f :: w.frames }).1,
        { (m.goes env { w with frames := f :: w.frames }).2 with
          frames := (m.goes env { w with frames := f :: w.frames }).2.frames.tail }) := rfl

theorem goes_step (s : Step) (code : Attempt σ ν α) (env : Environment σ ν) (w : World σ ν) :
    (step s code).run.goes env w =
      ((code.run.goes env (w.mark s .began)).1,
        (code.run.goes env (w.mark s .began)).2.mark s
          (.ofOutcome (code.run.goes env (w.mark s .began)).1)) := rfl

theorem goes_modifyTop_nil {w : World σ ν} (frames : w.frames = []) (change : Frame σ ν → Frame σ ν)
    (env : Environment σ ν) : (modifyTop change).goes env w = (.ok (), w) := by
  cases w
  dsimp only at frames
  subst frames
  rfl

theorem goes_modifyTop {w : World σ ν} {f : Frame σ ν} {above : List (Frame σ ν)} (frames : w.frames = f :: above)
    (change : Frame σ ν → Frame σ ν) (env : Environment σ ν) :
    (modifyTop change).goes env w = (.ok (), { w with frames := change f :: above }) := by
  cases w
  dsimp only at frames
  subst frames
  rfl

theorem goes_act (action : Action σ ν α) (env : Environment σ ν) (w : World σ ν) :
    (act action).goes env w = (.ok (action w.user).1,
      { w with
        user := (action w.user).2.2
        trace := w.trace ++ ((action w.user).2.1.map Entry.note).toArray }) := rfl

theorem goes_view (env : Environment σ ν) (w : World σ ν) :
    view.goes env w = (.ok (viewOf env.configuration w.abandoned w.frames), w) := by
  obtain ⟨frames, _⟩ := w
  cases frames <;> rfl

end Engine

/-- A way to tell entries of a trace by larger parts, which may be held to a law. -/
structure Telling (ν δ : Type) where
  entries : List δ → List (Entry ν)
  lawful : δ → Prop
  /-- Whether invocations may time out on the instances they use. -/
  timed : Prop
  nil : entries [] = []
  append : ∀ xs ys, entries (xs ++ ys) = entries xs ++ entries ys

/-- No instance is given up, unless invocations may time out. -/
def World.Fresh (timed : Prop) (w : World σ ν) : Prop := timed ∨ w.abandoned = []

/-- All that has changed from one world to another is what was told. -/
structure Telling.Adds (T : Telling ν δ) (w w' : World σ ν) (told : List δ) : Prop where
  sites : w'.frames.map Frame.site = w.frames.map Frame.site
  trace : w'.trace.toList = w.trace.toList ++ T.entries told
  lawful : ∀ x ∈ told, T.lawful x
  abandoned : T.timed ∨ w'.abandoned = w.abandoned

def Telling.raw (timed : Prop) : Telling ν (Entry ν) where
  entries es := es
  lawful _ := True
  timed := timed
  nil := rfl
  append _ _ := rfl

namespace Telling.Adds
variable {T : Telling ν δ} {w w' w'' : World σ ν}

theorem refl (w : World σ ν) : T.Adds w w [] := ⟨rfl, by simp [T.nil], by simp, .inr rfl⟩

theorem trans (first : T.Adds w w' xs) (second : T.Adds w' w'' ys) : T.Adds w w'' (xs ++ ys) := by
  refine ⟨second.sites.trans first.sites, ?_, ?_, ?_⟩
  · rw [second.trace, first.trace, T.append, List.append_assoc]
  · intro x member
    rcases List.mem_append.mp member with left | right
    · exact first.lawful x left
    · exact second.lawful x right
  · rcases first.abandoned with timed | kept
    · exact .inl timed
    · exact second.abandoned.imp_right (·.trans kept)

theorem silent (sites : w'.frames.map Frame.site = w.frames.map Frame.site) (trace : w'.trace = w.trace)
    (abandoned : w'.abandoned = w.abandoned) : T.Adds w w' [] :=
  ⟨sites, by simp [trace, T.nil], by simp, .inr abandoned⟩

theorem fresh (h : T.Adds w w' xs) (before : w.Fresh T.timed) : w'.Fresh T.timed := by
  rcases h.abandoned with timed | kept
  · exact .inl timed
  · exact before.imp_right kept.trans

end Telling.Adds

/-- A condition on an outcome and what was told: `S` where there is a value, `E` where the run is broken
off. -/
def Ends (S : α → List δ → Prop) (E : Halt → List δ → Prop) : Except Halt α → List δ → Prop
  | .ok a, told => S a told
  | .error h, told => E h told

/-- From every world with these sites, what code adds can be told so that the conditions hold. -/
def Goes (T : Telling ν δ) (env : Environment σ ν) (sites : List (Site σ ν)) (m : Engine σ ν α)
    (S : α → List δ → Prop) (E : Halt → List δ → Prop) : Prop :=
  ∀ w, w.frames.map Frame.site = sites → w.Fresh T.timed →
    ∃ told, T.Adds w (m.goes env w).2 told ∧ Ends S E (m.goes env w).1 told

namespace Goes
variable {T : Telling ν δ} {U : Telling ν ε} {env : Environment σ ν} {sites : List (Site σ ν)}
  {m : Engine σ ν α} {k : α → Engine σ ν β} {S : α → List δ → Prop} {R : β → List δ → Prop}
  {E F : Halt → List δ → Prop}

theorem pure (holds : S a []) : Goes T env sites (pure a) S E :=
  fun w _ _ => ⟨[], .refl w, holds⟩

theorem silent (h : ∀ w, w.frames.map Frame.site = sites →
    (m.goes env w).2.frames.map Frame.site = w.frames.map Frame.site ∧
      (m.goes env w).2.trace = w.trace ∧ (m.goes env w).2.abandoned = w.abandoned ∧
      Ends S E (m.goes env w).1 []) :
    Goes T env sites m S E := fun w there _ =>
  have ⟨kept, trace, abandoned, ends⟩ := h w there
  ⟨[], .silent kept trace abandoned, ends⟩

theorem append (told : List δ) (e : Entry ν) (same : T.entries told = [e])
    (lawful : ∀ x ∈ told, T.lawful x) {S : Unit → List δ → Prop} (holds : S () told) :
    Goes T env sites (Engine.append e) S E :=
  fun _ _ _ => ⟨told, ⟨rfl, same ▸ Array.toList_push, lawful, .inr rfl⟩, holds⟩

theorem halt (holds : E h []) : Goes T env sites (Engine.halt h : Engine σ ν α) S E :=
  fun w _ _ => ⟨[], .refl w, holds⟩

theorem bind (first : Goes T env sites m S E)
    (second : ∀ a xs, S a xs → Goes T env sites (k a) (fun b ys => R b (xs ++ ys))
      (fun h ys => F h (xs ++ ys)))
    (broken : ∀ h xs, E h xs → F h xs) : Goes T env sites (m >>= k) R F := by
  intro w there fresh
  obtain ⟨xs, adds, ends⟩ := first w there fresh
  rw [Engine.goes_bind]
  rcases outcome : m.goes env w with ⟨a | a, w'⟩ <;> simp only [outcome] at adds ends ⊢
  · exact ⟨xs, adds, broken _ _ ends⟩
  · obtain ⟨ys, more, ends⟩ := second _ xs ends w' (adds.sites.trans there) (adds.fresh fresh)
    refine ⟨xs ++ ys, adds.trans more, ?_⟩
    cases ended : ((k a).goes env w').1 <;> rw [ended] at ends <;> exact ends

theorem mono {R : α → List δ → Prop} (h : Goes T env sites m S E) (ended : ∀ a xs, S a xs → R a xs)
    (broken : ∀ h xs, E h xs → F h xs) : Goes T env sites m R F := by
  intro w there fresh
  obtain ⟨told, adds, ends⟩ := h w there fresh
  refine ⟨told, adds, ?_⟩
  cases outcome : (m.goes env w).1 <;> rw [outcome] at ends
  · exact broken _ _ ends
  · exact ended _ _ ends

theorem map (h : Goes T env sites m S E) (f : α → β) (ended : ∀ a xs, S a xs → R (f a) xs) :
    Goes T env sites (f <$> m) R E := by
  rw [map_eq_pure_bind]
  exact h.bind (fun a xs s => .pure (by simpa using ended a xs s)) fun _ _ e => e

theorem discard {Q : List δ → Prop} (h : Goes T env sites m S E) (ended : ∀ a xs, S a xs → Q xs) :
    Goes T env sites (discard m) (fun _ => Q) E := h.map _ ended

theorem attempt_bind {m : Attempt σ ν α} {k : α → Attempt σ ν β}
    {S : Except Fault α → List δ → Prop} {R : Except Fault β → List δ → Prop}
    (first : Goes T env sites m.run S E)
    (second : ∀ a xs, S (.ok a) xs → Goes T env sites (k a).run (fun b ys => R b (xs ++ ys))
      (fun h ys => F h (xs ++ ys)))
    (faulty : ∀ f xs, S (.error f) xs → R (.error f) xs)
    (broken : ∀ h xs, E h xs → F h xs) : Goes T env sites (m >>= k).run R F := by
  rw [ExceptT.run_bind]
  refine first.bind ?_ broken
  intro outcome xs s
  cases outcome with
  | ok a => exact second a xs s
  | error f => exact .pure (by simpa using faulty f xs s)

theorem lift_bind {k : α → Attempt σ ν β} {R : Except Fault β → List δ → Prop}
    (first : Goes T env sites m S E)
    (second : ∀ a xs, S a xs → Goes T env sites (k a).run (fun b ys => R b (xs ++ ys))
      (fun h ys => F h (xs ++ ys)))
    (broken : ∀ h xs, E h xs → F h xs) : Goes T env sites (ExceptT.lift m >>= k).run R F := by
  rw [ExceptT.run_bind_lift]
  exact first.bind second broken

theorem settings : Goes T env sites Engine.settings (fun s xs => xs = [] ∧ s = env.settings) E :=
  silent fun _ _ => ⟨rfl, rfl, rfl, rfl, rfl⟩

theorem frames : Goes T env sites Engine.frames
    (fun fs xs => xs = [] ∧ fs.map Frame.site = sites) E :=
  silent fun _ there => ⟨rfl, rfl, rfl, rfl, there⟩

theorem top? : Goes T env sites Engine.top?
    (fun f xs => xs = [] ∧ f.map Frame.site = sites.head?) E :=
  silent fun w there => ⟨rfl, rfl, rfl, rfl, by rw [← there, List.head?_map]⟩

theorem extensions (capability : Capability) : Goes T env sites (Engine.extensions capability)
    (fun es xs => xs = [] ∧ es = (sites.head?.map (·.registry.extensions capability)).getD []) E := by
  refine silent fun w there => ⟨rfl, rfl, rfl, rfl, ?_⟩
  show (w.frames.head?.map _).getD [] = _
  rw [← there, List.head?_map, Option.map_map]
  rfl

theorem currentRegistry : Goes T env sites Engine.currentRegistry
    (fun r xs => xs = [] ∧ r = (sites.head?.map (·.registry)).getD env.registry) E := by
  refine (top? (E := E)).bind ?_ fun _ _ e => e
  rintro f xs ⟨rfl, top⟩
  rw [← top]
  cases f with
  | none => exact silent fun _ _ => ⟨rfl, rfl, rfl, rfl, rfl⟩
  | some f => exact .pure ⟨rfl, rfl⟩

theorem freshNumber : Goes T env sites Engine.freshNumber (fun _ xs => xs = []) E :=
  silent fun _ _ => ⟨rfl, rfl, rfl, rfl⟩

theorem instances? : Goes T env sites Engine.instances? (fun _ xs => xs = []) E :=
  silent fun _ _ => ⟨rfl, rfl, rfl, rfl⟩

theorem modify (change : World σ ν → World σ ν)
    (kept : ∀ w, (change w).frames.map Frame.site = w.frames.map Frame.site)
    (trace : ∀ w, (change w).trace = w.trace) (abandoned : ∀ w, (change w).abandoned = w.abandoned) :
    Goes T env sites (modify change : Engine σ ν PUnit) (fun _ xs => xs = []) E :=
  silent fun w _ => ⟨kept w, trace w, abandoned w, rfl⟩

theorem modifyTop (change : Frame σ ν → Frame σ ν) (kept : ∀ f, (change f).site = f.site) :
    Goes T env sites (Engine.modifyTop change) (fun _ xs => xs = []) E := by
  refine modify _ ?_ ?_ ?_ <;> intro w
  · cases frames : w.frames with
    | nil => simp [frames]
    | cons f fs => simp [kept]
  · cases frames : w.frames <;> rfl
  · cases frames : w.frames <;> rfl

theorem contain {code : Engine σ ν Unit} {S : Unit → List δ → Prop} (h : Goes T env sites code S E) :
    Goes T env sites (Engine.contain code) (fun _ xs => S () xs ∨ ∃ payload, E (.panicked payload) xs)
      (fun h xs => (∀ payload, h ≠ .panicked payload) ∧ E h xs) := by
  intro w there fresh
  obtain ⟨told, adds, ends⟩ := h w there fresh
  refine ⟨told, adds, ?_⟩
  show Ends _ _ (Engine.contained (code.goes env w).1) told
  cases outcome : (code.goes env w).1 with
  | ok =>
    rw [outcome] at ends
    exact .inl ends
  | error halted =>
    rw [outcome] at ends
    cases halted with
    | panicked payload => exact .inr ⟨payload, ends⟩
    | late | blocked | endless | nesting => exact ⟨nofun, ends⟩

/-- The same entries told in another way. -/
theorem retell {R : α → List ε → Prop} {F : Halt → List ε → Prop} (h : Goes T env sites m S E)
    (timed : T.timed = U.timed)
    (ended : ∀ a xs, S a xs → (∀ x ∈ xs, T.lawful x) →
      ∃ ys, U.entries ys = T.entries xs ∧ (∀ y ∈ ys, U.lawful y) ∧ R a ys)
    (broken : ∀ h xs, E h xs → (∀ x ∈ xs, T.lawful x) →
      ∃ ys, U.entries ys = T.entries xs ∧ (∀ y ∈ ys, U.lawful y) ∧ F h ys) :
    Goes U env sites m R F := by
  intro w there fresh
  obtain ⟨xs, adds, ends⟩ := h w there (timed ▸ fresh)
  cases outcome : (m.goes env w).1 with
  | error halted =>
    rw [outcome] at ends
    obtain ⟨ys, same, lawful, holds⟩ := broken _ _ ends adds.lawful
    exact ⟨ys, ⟨adds.sites, same ▸ adds.trace, lawful, timed ▸ adds.abandoned⟩, holds⟩
  | ok a =>
    rw [outcome] at ends
    obtain ⟨ys, same, lawful, holds⟩ := ended _ _ ends adds.lawful
    exact ⟨ys, ⟨adds.sites, same ▸ adds.trace, lawful, timed ▸ adds.abandoned⟩, holds⟩

/-- What is told of a node while its frame is there. -/
theorem within {f : Frame σ ν} (h : Goes T env (f.site :: sites) m S E) :
    Goes (.raw T.timed) env sites (Engine.within f m)
      (fun a es => ∃ told, es = T.entries told ∧ (∀ x ∈ told, T.lawful x) ∧ S a told)
      (fun h es => ∃ told, es = T.entries told ∧ (∀ x ∈ told, T.lawful x) ∧ E h told) := by
  intro w there fresh
  obtain ⟨told, adds, ends⟩ := h { w with frames := f :: w.frames } (by simp [there]) fresh
  refine ⟨T.entries told, ⟨?_, adds.trace, fun _ _ => trivial, adds.abandoned⟩, ?_⟩
  · rw [Engine.goes_within, List.map_tail, adds.sites]
    rfl
  · rw [Engine.goes_within]
    cases outcome : (m.goes env { w with frames := f :: w.frames }).1 <;> rw [outcome] at ends
    · exact ⟨told, rfl, adds.lawful, ends⟩
    · exact ⟨told, rfl, adds.lawful, ends⟩

end Goes
end TestEngine

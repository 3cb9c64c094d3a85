import TestEngine.Proofs.Acting
import TestEngine.Proofs.Regimes

/-! Code that has no part in the life of instances. It leaves alone the chains that nodes hold, constructs
nothing, invokes no hooks of classes, and shows nothing to pre-destroy callbacks. All code of the user is such
code, and so is most of what the engine does around it. -/
namespace TestEngine
variable {σ ν α β : Type}

namespace Entry

/-- A constructor is invoked, or all that a node needs is constructed. -/
def isMaking : Entry ν → Bool
  | .step _ (.construction _ _ _) .began | .step _ .instantiation (.ended none) => true
  | _ => false

def isHook : Entry ν → Bool
  | .step _ (.hook _ _ _ _) .began => true
  | _ => false

def isFarewell : Entry ν → Bool
  | .step _ (.preDestroy _ _) .began => true
  | _ => false

end Entry

/-- What is told of instances from one world to another: the marks of making them, of invoking hooks and of taking
leave of instances, and the numbers they are given. -/
structure World.Tells (w w' : World σ ν) (made called gone : List (Entry ν)) (numbers : List Nat) : Prop where
  trace : w.trace.toList <+: w'.trace.toList
  makings : w'.trace.toList.filter Entry.isMaking = w.trace.toList.filter Entry.isMaking ++ made
  hooks : w'.trace.toList.filter Entry.isHook = w.trace.toList.filter Entry.isHook ++ called
  farewells : w'.trace.toList.filter Entry.isFarewell = w.trace.toList.filter Entry.isFarewell ++ gone
  next : w.nextNumber ≤ w'.nextNumber
  range : ∀ n ∈ numbers, w.nextNumber ≤ n ∧ n < w'.nextNumber
  ascending : numbers.Pairwise (· < ·)

/-- Nothing has happened to instances from one world to another. -/
structure World.Idles (w w' : World σ ν) : Prop extends w.Tells w' [] [] [] [] where
  stands : w'.frames.map Frame.stand = w.frames.map Frame.stand

namespace World
variable {w w' w'' : World σ ν}

theorem Tells.trans {made made' called called' gone gone' : List (Entry ν)} {numbers numbers' : List Nat}
    (first : w.Tells w' made called gone numbers) (second : w'.Tells w'' made' called' gone' numbers') :
    w.Tells w'' (made ++ made') (called ++ called') (gone ++ gone') (numbers ++ numbers') where
  trace := first.trace.trans second.trace
  makings := by rw [second.makings, first.makings, List.append_assoc]
  hooks := by rw [second.hooks, first.hooks, List.append_assoc]
  farewells := by rw [second.farewells, first.farewells, List.append_assoc]
  next := Nat.le_trans first.next second.next
  range n member := by
    have := first.next
    have := second.next
    rcases List.mem_append.mp member with member | member
    · have := first.range n member
      omega
    · have := second.range n member
      omega
  ascending := List.pairwise_append.mpr ⟨first.ascending, second.ascending, fun m before n behind => by
    have := first.range m before
    have := second.range n behind
    omega⟩

/-- Numbers apart, what is told is what the entries that are added tell. -/
theorem Tells.of_trace {es : List (Entry ν)} (trace : w'.trace.toList = w.trace.toList ++ es)
    (next : w.nextNumber ≤ w'.nextNumber) :
    w.Tells w' (es.filter Entry.isMaking) (es.filter Entry.isHook) (es.filter Entry.isFarewell) [] where
  trace := ⟨es, trace.symm⟩
  makings := by rw [trace, List.filter_append]
  hooks := by rw [trace, List.filter_append]
  farewells := by rw [trace, List.filter_append]
  next := next
  range := by simp
  ascending := .nil

theorem Tells.silent (trace : w'.trace = w.trace) (next : w.nextNumber ≤ w'.nextNumber) :
    w.Tells w' [] [] [] [] := by
  have kept : w'.trace.toList = w.trace.toList ++ [] := by simp [trace]
  exact .of_trace kept next

theorem Tells.mark (w : World σ ν) (s : Step) (phase : Phase) :
    w.Tells (w.mark s phase) ([Entry.step w.currentId s phase].filter Entry.isMaking)
      ([Entry.step w.currentId s phase].filter Entry.isHook)
      ([Entry.step w.currentId s phase].filter Entry.isFarewell) [] :=
  .of_trace (w.trace_mark s phase) (Nat.le_refl _)

namespace Idles

theorem told (es : List (Entry ν)) (stands : w'.frames.map Frame.stand = w.frames.map Frame.stand)
    (trace : w'.trace.toList = w.trace.toList ++ es) (makings : es.filter Entry.isMaking = [])
    (hooks : es.filter Entry.isHook = []) (farewells : es.filter Entry.isFarewell = [])
    (next : w.nextNumber ≤ w'.nextNumber) : w.Idles w' := by
  have tells := Tells.of_trace trace next
  rw [makings, hooks, farewells] at tells
  exact ⟨tells, stands⟩

theorem silent (silent : w.Silent w') : w.Idles w' := ⟨.silent silent.trace silent.next, silent.stands⟩

theorem refl (w : World σ ν) : w.Idles w := silent (.refl w)

theorem trans (first : w.Idles w') (second : w'.Idles w'') : w.Idles w'' :=
  ⟨first.toTells.trans second.toTells, second.stands.trans first.stands⟩

theorem mark (w : World σ ν) {s : Step} (apart : s.isOfInstances = false) (phase : Phase) :
    w.Idles (w.mark s phase) := by
  refine told [.step w.currentId s phase] rfl (w.trace_mark s phase) ?_ ?_ ?_ (Nat.le_refl _)
  all_goals cases s <;> first | contradiction | rfl

end Idles
end World

/-- Nothing happens to instances, and no panic goes on above the code. -/
def Idle (m : Engine σ ν α) : Prop :=
  ∀ env w, w.Idles (m.goes env w).2 ∧ ∀ payload, (m.goes env w).1 ≠ .error (.panicked payload)

namespace Idle

theorem pure (a : α) : Idle (pure a : Engine σ ν α) := fun _ w => ⟨.refl w, nofun⟩

theorem halt (calm : ∀ payload, h ≠ .panicked payload) : Idle (Engine.halt h : Engine σ ν α) := fun _ w =>
  ⟨.refl w, fun payload same => calm payload (Except.error.inj same)⟩

theorem bind {m : Engine σ ν α} {k : α → Engine σ ν β} (first : Idle m) (second : ∀ a, Idle (k a)) :
    Idle (m >>= k) := by
  intro env w
  have ⟨idles, calm⟩ := first env w
  rw [Engine.goes_bind]
  rcases outcome : m.goes env w with ⟨h | a, w'⟩ <;> simp only [outcome] at idles calm ⊢
  · exact ⟨idles, fun payload same => calm payload (congrArg Except.error (Except.error.inj same))⟩
  · exact ⟨idles.trans (second a env w').1, (second a env w').2⟩

theorem append (e : Entry ν) (making : e.isMaking = false) (hook : e.isHook = false)
    (farewell : e.isFarewell = false) : Idle (Engine.append (σ := σ) e) := fun _ _ =>
  ⟨.told [e] rfl Array.toList_push (by simp [making]) (by simp [hook]) (by simp [farewell]) (Nat.le_refl _), nofun⟩

theorem step {m : Attempt σ ν α} (h : Idle m.run) {s : Step} (apart : s.isOfInstances = false) :
    Idle (Engine.step s m).run := by
  intro env w
  have ⟨idles, calm⟩ := h env (w.mark s .began)
  rw [Engine.goes_step]
  exact ⟨((World.Idles.mark w apart _).trans idles).trans (.mark _ apart _), calm⟩

theorem discipline (σ ν : Type) : Discipline (σ := σ) (ν := ν) fun _ m => Idle m := by
  apply Discipline.of_silent
  · intro α m h env w
    obtain ⟨ok, silent⟩ := h env w
    refine ⟨.silent silent, fun payload panicked => ?_⟩
    simp [panicked, Except.isOk, Except.toBool] at ok
  · exact halt
  · exact bind
  · exact fun n => append (.note n) rfl rfl rfl
  · exact fun node values => append _ rfl rfl rfl
  · intro α action env w
    refine ⟨.told ((action w.user).2.1.map .note) rfl ?_ ?_ ?_ ?_ (Nat.le_refl _), by simp [Engine.goes_act]⟩
    · show (w.trace ++ ((action w.user).2.1.map Entry.note).toArray).toList = _
      simp
    · simp [Entry.isMaking]
    · simp [Entry.isHook]
    · simp [Entry.isFarewell]
  · intro α code s idle asking
    exact idle.step (Step.apart_of_isPlain (Step.isPlain_of_isAsking asking)).1

theorem practice (σ ν : Type) : Practice (σ := σ) (ν := ν) fun _ m => Idle m where
  toDiscipline := discipline σ ν
  plain idle plain := idle.step (Step.apart_of_isPlain plain).1

theorem discard {m : Engine σ ν α} (h : Idle m) : Idle (discard m) := (discipline σ ν).map h _

theorem lift {m : Engine σ ν α} (h : Idle m) : Idle (ExceptT.lift m : Attempt σ ν α).run := (discipline σ ν).lift h

theorem modifyTop (change : Frame σ ν → Frame σ ν) (kept : ∀ f, (change f).stand = f.stand) :
    Idle (Engine.modifyTop change) := by
  intro env w
  cases frames : w.frames with
  | nil =>
    rw [Engine.goes_modifyTop_nil frames]
    exact ⟨.silent (.refl w), by simp⟩
  | cons f fs =>
    rw [Engine.goes_modifyTop frames]
    exact ⟨.silent ⟨by simp [frames, kept], rfl, Nat.le_refl _, rfl⟩, by simp⟩

/-- Whatever frame there is while the code runs, it is gone behind it. -/
theorem within {m : Engine σ ν α} (f : Frame σ ν) (h : Idle m) : Idle (Engine.within f m) := by
  intro env w
  have ⟨idles, calm⟩ := h env { w with frames := f :: w.frames }
  rw [Engine.goes_within]
  refine ⟨⟨⟨idles.trace, idles.makings, idles.hooks, idles.farewells, idles.next, idles.range, idles.ascending⟩,
    ?_⟩, calm⟩
  rw [List.map_tail, idles.stands]
  rfl

theorem before (deadline : Duration) (label : String) {code : Attempt σ ν α} (h : Idle code.run) :
    Idle (Engine.before deadline label code).run := by
  intro env w
  obtain ⟨idles, calm⟩ := h env { w with timeLeft := some deadline }
  refine ⟨⟨⟨idles.trace, idles.makings, idles.hooks, idles.farewells, idles.next, idles.range, idles.ascending⟩,
    idles.stands⟩, fun payload => ?_⟩
  show Engine.timed deadline label (code.run.goes env { w with timeLeft := some deadline }).1 ≠ _
  specialize calm payload
  rcases outcome : (code.run.goes env { w with timeLeft := some deadline }).1 with h | fault | a
  · cases h <;> simp_all [Engine.timed]
  · simp [Engine.timed]
  · simp [Engine.timed]

theorem completes (σ ν : Type) : Completes (σ := σ) (ν := ν) fun _ m => Idle m where
  toPractice := practice σ ν
  report _ _ := append _ rfl rfl rfl
  emptied := modifyTop _ fun _ => rfl
  ending h ending := h.step (Step.isOfInstances_of_isOfEnding ending)

theorem regime (σ ν : Type) : Regime (σ := σ) (ν := ν) (fun _ m => Idle m) fun _ m => Idle m where
  toPractice := practice σ ν
  mark _ mark := by
    refine append _ ?_ ?_ ?_
    all_goals
      rename_i e _
      cases e with
      | step => contradiction
      | _ => rfl
  timed deadline label m inst := before deadline label ((discipline σ ν).invoke m inst)
  abandon _ _ _ := ⟨⟨.silent rfl (Nat.le_refl _), rfl⟩, nofun⟩
  first := bind
  started h := ((completes σ ν).report _ _).bind fun _ => h.bind fun _ => (completes σ ν).finish _ _
  skipped reason _ h := (completes σ ν).reportSkipped _ reason h
  within _ h := within _ h

end Idle
end TestEngine

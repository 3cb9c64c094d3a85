import TestEngine.Proofs.Governing

/-! What is shown of errors to the code at a node. A node that is entered has nothing to show, and code of the user
leaves it at that: no callback, no hook, no method, and nothing that is asked on the way. -/
namespace TestEngine
variable {σ ν α β : Type} {env : Environment σ ν}

open Execution

/-- The site of a frame, with the exception that is shown there. -/
def Frame.shows (f : Frame σ ν) : Site σ ν × Option TestError := (f.site, f.exception)

def World.shows (w : World σ ν) : List (Site σ ν × Option TestError) := w.frames.map Frame.shows

theorem World.shows_congr {w w' : World σ ν} (sites : w'.frames.map Frame.site = w.frames.map Frame.site)
    (exceptions : w'.frames.map (·.exception) = w.frames.map (·.exception)) : w'.shows = w.shows := by
  have zipped (w : World σ ν) : w.shows = (w.frames.map Frame.site).zip (w.frames.map (·.exception)) := by
    rw [List.zip_map']
    rfl
  rw [zipped, zipped, sites, exceptions]

theorem World.extensions_congr {w w' : World σ ν} (same : w'.shows = w.shows) (capability : Capability) :
    w'.extensions capability = w.extensions capability := by
  have told (w : World σ ν) : w.extensions capability =
      (w.shows.head?.map (·.1.registry.extensions capability)).getD [] := by
    unfold World.extensions World.shows
    cases w.frames <;> rfl
  rw [told, told, same]

/-- Code that leaves it as it is what is shown, at its own node and at those above. -/
def Discreet (m : Engine σ ν α) : Prop := ∀ env w, (m.goes env w).2.shows = w.shows

namespace Discreet

theorem shows_eq {m : Engine σ ν α} {w w' : World σ ν} {outcome : Except Halt α} (h : Discreet m)
    (goes : m.goes env w = (outcome, w')) : w'.shows = w.shows := by
  have kept := h env w
  rwa [goes] at kept

theorem pure (a : α) : Discreet (pure a : Engine σ ν α) := fun _ _ => rfl

theorem bind {m : Engine σ ν α} {k : α → Engine σ ν β} (first : Discreet m) (second : ∀ a, Discreet (k a)) :
    Discreet (m >>= k) := by
  intro env w
  have kept := first env w
  rw [Engine.goes_bind]
  rcases outcome : m.goes env w with ⟨h | a, w'⟩ <;> simp only [outcome] at kept ⊢
  · exact kept
  · exact (second a env w').trans kept

theorem append (e : Entry ν) : Discreet (Engine.append (σ := σ) e) := fun _ _ => rfl

theorem step {m : Attempt σ ν α} (h : Discreet m.run) (s : Step) : Discreet (Engine.step s m).run :=
  fun env w => h env (w.mark s .began)

theorem discipline (σ ν : Type) : Discipline (σ := σ) (ν := ν) fun _ m => Discreet m where
  still h env w := World.shows_congr (World.sites_congr (h env w).2.stands) (h env w).2.exceptions
  halt _ _ _ := rfl
  bind := bind
  note _ := append _
  publish _ _ := append _
  act _ _ _ := rfl
  step h _ := h.step _
  askStore levelsUp key request := by
    refine bind (m := Engine.frames) (fun _ _ => rfl) fun fs => ?_
    dsimp only
    split
    · exact pure _
    · refine bind (m := Engine.act _) (fun _ _ => rfl) fun outcome => ?_
      split
      · exact pure _
      · exact bind (fun _ w => Frame.map_modify w.frames _ _ fun _ => rfl) fun _ => pure _

theorem practice (σ ν : Type) : Practice (σ := σ) (ν := ν) fun _ m => Discreet m where
  toDiscipline := discipline σ ν
  plain h _ := h.step _

theorem modifyTop (change : Frame σ ν → Frame σ ν) (kept : ∀ f, (change f).shows = f.shows) :
    Discreet (Engine.modifyTop change) := by
  intro env w
  cases frames : w.frames with
  | nil => rw [Engine.goes_modifyTop_nil frames]
  | cons f fs =>
    rw [Engine.goes_modifyTop frames]
    simp [World.shows, frames, kept]

/-- A node that is left leaves those above as they were. -/
theorem within {m : Engine σ ν α} (f : Frame σ ν) (h : Discreet m) : Discreet (Engine.within f m) := by
  intro env w
  have kept := h env { w with frames := f :: w.frames }
  rw [Engine.goes_within]
  unfold World.shows at kept ⊢
  rw [List.map_tail, kept]
  rfl

theorem completes (σ ν : Type) : Completes (σ := σ) (ν := ν) fun _ m => Discreet m where
  toPractice := practice σ ν
  report _ _ := append _
  emptied := modifyTop _ fun _ => rfl
  ending h _ := h.step _

/-- Apart from the life of a leaf the engine is discreet, too. -/
theorem tenure (σ ν : Type) : Tenure (σ := σ) (ν := ν) (fun _ m => Discreet m) fun _ m => Discreet m where
  toPractice := practice σ ν
  mark _ _ := append _
  timed _ _ m inst env w := (discipline σ ν).invoke m inst env { w with timeLeft := _ }
  abandon _ _ _ := rfl
  first := bind
  started h := (append _).bind fun _ => h.bind fun _ => (completes σ ν).finish _ _
  skipped reason _ h := (completes σ ν).reportSkipped _ reason h
  within _ h := h.within _
  stepping h _ := h.step _
  holding _ := modifyTop _ fun _ => rfl

end Discreet

/-- The run has come to a node, and there is nothing yet to be shown. -/
def World.Begins (d : Descriptor σ ν) (w : World σ ν) : Prop :=
  ∃ f above, w.frames = f :: above ∧ f.descriptor = d ∧ f.exception = none

theorem World.Begins.of_shows {d : Descriptor σ ν} {w w' : World σ ν} (begins : w.Begins d)
    (same : w'.shows = w.shows) : w'.Begins d := by
  obtain ⟨f, above, frames, rfl, none⟩ := begins
  unfold World.shows at same
  rw [frames, List.map_cons] at same
  obtain ⟨f', above', frames', shows, _⟩ := List.map_eq_cons_iff.mp same
  obtain ⟨site, exception⟩ := Prod.mk.inj shows
  exact ⟨f', above', frames', congrArg Site.descriptor site, exception.trans none⟩

section
variable {d : Descriptor σ ν} {skips : String → Engine σ ν Unit} {body body' : Engine σ ν ExecutionResult}
  {w : World σ ν}

/-- Neither registration nor conditions show anything. -/
theorem goes_admitted_congr (agree : ∀ w, w.Begins d → body.goes env w = body'.goes env w) (begins : w.Begins d) :
    (admitted d skips body).goes env w = (admitted d skips body').goes env w := by
  have engine := Discreet.tenure σ ν
  refine Engine.goes_bind_congr fun _ w₁ goes => ?_
  have registered := begins.of_shows ((engine.discard (engine.registration none)).shows_eq goes)
  refine Engine.goes_bind_congr fun verdict w₂ goes => ?_
  have evaluated := registered.of_shows (engine.evaluateConditions.shows_eq goes)
  cases verdict with
  | error fault => rfl
  | ok verdict =>
    cases verdict with
    | disabled reason => rfl
    | enabled reason =>
      refine Engine.goes_bind_congr fun _ w₃ goes => ?_
      have started := evaluated.of_shows ((Discreet.append _).shows_eq goes)
      exact Engine.goes_congr_bind (agree w₃ started) _

/-- A node that is visited does what it does from a world in which it has nothing to show yet. -/
theorem goes_visit_congr (subtree : List String) (agree : ∀ w, w.Begins d → body.goes env w = body'.goes env w)
    (w : World σ ν) : (visit d subtree skips body).goes env w = (visit d subtree skips body').goes env w := by
  refine Engine.goes_bind_congr fun top w goes => ?_
  refine Engine.goes_bind_congr fun _ w goes => Engine.goes_congr_bind ?_ _
  refine Engine.goes_bind_congr fun parent w goes => ?_
  refine Engine.goes_bind_congr fun settings w goes => ?_
  cases registryFor settings d parent with
  | error e => rfl
  | ok registry =>
    refine Engine.goes_bind_congr fun f w goes => ?_
    have fresh : f.descriptor = d ∧ f.exception = none := by
      unfold frameFor at goes
      cases goes
      exact ⟨rfl, rfl⟩
    rw [Engine.goes_within, Engine.goes_within, goes_admitted_congr agree ⟨f, w.frames, rfl, fresh⟩]

end
end TestEngine

import TestEngine.Proofs.Leaves
import TestEngine.Proofs.Logs

/-! What a node reports of itself, with what its watchers are told. Its store is closed behind all else, and the result
that is reported tells all that the node raised. -/
namespace TestEngine
variable {σ ν α : Type}

/-- As `Conducts`, with the reports of the node itself. -/
abbrev Does (timed : Prop) (env : Environment σ ν) (path : List (Place σ ν)) (m : Engine σ ν α)
    (S : α → List (Deed σ ν) → Prop) (E : Halt → List (Deed σ ν) → Prop) : Prop :=
  Goes (.deeds timed env path) env (path.map (·.toSite)) m S E

namespace Deed

def Unfinished (deeds : List (Deed σ ν)) : Prop := ∀ r, .report (.finished r) ∉ deeds

namespace Unfinished
variable {ds es : List (Deed σ ν)}

theorem nil : Unfinished ([] : List (Deed σ ν)) := fun _ => List.not_mem_nil

theorem append (first : Unfinished ds) (second : Unfinished es) : Unfinished (ds ++ es) := fun r member =>
  (List.mem_append.mp member).elim (first r) (second r)

theorem act (a : Act ν) (h : Unfinished ds) : Unfinished (.act a :: ds) := fun r member => by
  cases member with
  | tail _ member => exact h r member

end Unfinished

namespace Underway
variable {ds es : List (Deed σ ν)}

theorem nil : Underway ([] : List (Deed σ ν)) := ⟨fun _ => nofun, fun _ => nofun⟩

theorem started : Underway ([.report .started] : List (Deed σ ν)) := by
  constructor <;> simp

theorem append (first : Underway ds) (second : Underway es) : Underway (ds ++ es) where
  unwatched a member := (List.mem_append.mp member).elim (first.unwatched a) (second.unwatched a)
  reports r member := (List.mem_append.mp member).elim (first.reports r) (second.reports r)

theorem unfinished (h : Underway ds) : Unfinished ds := fun _ member =>
  Report.noConfusion (h.reports _ member)

end Underway

theorem InTurn.unfinished {plan : List (Step → Prop)} {ds : List (Deed σ ν)} (turns : InTurn plan ds) :
    Unfinished ds := by
  induction turns with
  | nil => exact .nil
  | step _ _ ih => exact ih.act _

theorem OnlyPasses.append {ds es : List (Deed σ ν)} (first : OnlyPasses ds) (second : OnlyPasses es) :
    OnlyPasses (ds ++ es) := fun v inside member =>
  (List.mem_append.mp member).elim (first v inside) (second v inside)

theorem InTurn.onlyPasses {plan : List (Step → Prop)} {ds : List (Deed σ ν)} (turns : InTurn plan ds) :
    OnlyPasses ds := by
  induction turns with
  | nil => exact fun _ _ => nofun
  | step _ _ ih =>
    have first (a : Act ν) : OnlyPasses [(.act a : Deed σ ν)] := by simp [OnlyPasses]
    exact (first _).append ih

theorem PassedOver.onlyPasses {reason : String} {trees : List (TestTree σ ν)} {ds : List (Deed σ ν)}
    (passedOver : PassedOver reason trees ds) : OnlyPasses ds := by
  induction passedOver with
  | nil => exact fun _ _ => nofun
  | cons visits _ ih =>
    obtain ⟨v, inside, rfl, _, manner, _⟩ := visits
    have first : OnlyPasses [.visit v inside] := by
      intro u us member
      cases List.mem_singleton.mp member
      exact ⟨reason, manner⟩
    exact first.append ih

end Deed

open Deed Execution

/-- A node that is passed over is told to be skipped at once. -/
theorem SkipTold.endTold {env : Environment σ ν} {path : List (Place σ ν)} {place : Place σ ν} {ds : List (Deed σ ν)}
    (h : SkipTold env path place ds) : EndTold env path place ds := .skipped .nil h

theorem Skip.onlyPasses {place : Place σ ν} {reason : String} {ds : List (Deed σ ν)} (h : Skip place reason ds) :
    OnlyPasses ds := by
  obtain ⟨told, skips, closing, fault, rfl, turns, passedOver⟩ := h
  have first : OnlyPasses [(.report (.skipped reason) : Deed σ ν)] := by simp [OnlyPasses]
  have last : OnlyPasses [(.act (.step .closeStore closing fault) : Deed σ ν)] := by simp [OnlyPasses]
  simpa using ((first.append turns.onlyPasses).append passedOver.onlyPasses).append last

section
variable {env : Environment σ ν} {place : Place σ ν} {path : List (Place σ ν)}

theorem Conducts.does {m : Engine σ ν α} {S : α → List (Deed σ ν) → Prop} {E : Halt → List (Deed σ ν) → Prop}
    (h : Conducts timed env path m S E) :
    Does timed env path m (fun a ds => Underway ds ∧ S a ds) (fun h ds => Underway ds ∧ E h ds) := by
  have each {ds : List (Deed σ ν)} (course : ∀ d ∈ ds, d.OfCourse timed env path) :
      ∀ d ∈ ds, (Telling.deeds timed env path).lawful d := fun d member =>
    ⟨(course d member).lawful, fun a same => .unwatched ((course d member).unwatched a same)⟩
  have underway {ds : List (Deed σ ν)} (course : ∀ d ∈ ds, d.OfCourse timed env path) : Underway ds :=
    ⟨fun a member => (course _ member).unwatched a rfl, fun r member => absurd rfl ((course _ member).unreported r)⟩
  refine h.retell rfl ?_ ?_
  · exact fun a ds s course => ⟨ds, rfl, each course, underway course, s⟩
  · exact fun h ds e course => ⟨ds, rfl, each course, underway course, e⟩

theorem does_report (place : Place σ ν) (r : Report) {E : Halt → List (Deed σ ν) → Prop} :
    Does timed env (place :: path) (Engine.report place.descriptor.node r.kind)
      (fun _ ds => ds = [.report r]) E := by
  refine .append [.report r] _ rfl (fun d member => ?_) rfl
  rw [List.mem_singleton.mp member]
  exact ⟨.report, nofun⟩

/-- Broken off without a panic, and no result is reported. -/
def Hanging (h : Halt) (deeds : List (Deed σ ν)) : Prop := Unfinished deeds ∧ Calm h deeds

def HangingOver (h : Halt) (deeds : List (Deed σ ν)) : Prop := Hanging h deeds ∧ OnlyPasses deeds

theorem Hanging.behind {before deeds : List (Deed σ ν)} (first : Unfinished before) (h : Hanging halt deeds) :
    Hanging halt (before ++ deeds) := ⟨first.append h.1, h.2⟩

theorem HangingOver.behind {before deeds : List (Deed σ ν)} (first : Unfinished before) (passes : OnlyPasses before)
    (h : HangingOver halt deeds) : HangingOver halt (before ++ deeds) :=
  ⟨h.1.behind first, passes.append h.2⟩

theorem Passing.hangingOver {ds : List (Deed σ ν)} (underway : Underway ds) (h : Passing halt ds) :
    HangingOver halt ds := ⟨⟨underway.unfinished, h.1⟩, h.2⟩

/-- Closing a store leaves notes and takes no step of the engine. -/
theorem conducts_closeStore : Conducts timed env (place :: path) closeStore.run
    (fun outcome ds => ∃ notes : List ν, ds = [.act (.step .closeStore (notes.map .note) (faultOf outcome))])
    Passing := by
  refine Goes.lift_bind (Goes.top? (E := Passing)) ?_ fun _ _ h => h
  rintro f _ ⟨rfl, top⟩
  cases f with
  | none => simp at top
  | some f =>
    refine Goes.lift_bind (Goes.modifyTop (E := Passing) _ (fun _ => rfl)) ?_ fun _ _ h => h
    rintro _ _ rfl
    refine ((Engine.performs_act f.store.release _ env _).step .closeStore rfl).passes.mono ?_ fun _ _ h => h
    rintro outcome _ ⟨_, ⟨_, ⟨user, _, rfl⟩, rfl⟩, rfl⟩
    exact ⟨_, rfl⟩

/-- The store of a node that is skipped is closed, whatever that raises. -/
theorem does_discardedClosing : Does timed env (place :: path) (discard closeStore.run)
    (fun _ ds => Underway ds ∧ ∃ (notes : List ν) (fault : Option Fault),
      ds = [.act (.step .closeStore (notes.map .note) fault)]) HangingOver := by
  refine (conducts_closeStore.does.discard ?_).mono (fun _ _ h => h) fun _ _ h => h.2.hangingOver h.1
  rintro outcome _ ⟨closed, notes, rfl⟩
  exact ⟨closed, notes, _, rfl⟩

theorem Place.watcherSteps_eq (place : Place σ ν) :
    place.watcherSteps = place.watching.map fun e s => s = .watcher e.name := by
  unfold watcherSteps watching
  split <;> rfl

namespace TellsEach
variable {tell : Watcher σ ν → Program σ ν Unit} {es : List (Extension σ ν)} {ds : List (Deed σ ν)}

theorem inTurn (h : TellsEach env path place tell es ds) : InTurn (es.map fun e s => s = .watcher e.name) ds := by
  induction h with
  | nil => exact .nil
  | told _ _ _ _ ih => exact .step rfl ih

theorem watcherSteps (h : TellsEach env path place tell place.watching ds) : InTurn place.watcherSteps ds := by
  rw [place.watcherSteps_eq]
  exact h.inTurn

theorem ofSkip (h : TellsEach env path place tell es ds) : ∀ a, .act a ∈ ds → a.OfSkip := by
  induction h with
  | nil => exact fun _ => nofun
  | told _ _ ofUser _ ih =>
    intro a member
    rcases List.mem_cons.mp member with first | rest
    · rw [Deed.act.inj first]
      exact .watcher ofUser
    · exact ih a rest

end TellsEach

/-- Acts at a node, with watchers told of it if it is of a kind that has any. -/
theorem Goes.does {law : Act ν → Prop} {m : Engine σ ν α} {S : α → List (Act ν) → Prop}
    (h : Goes (.acts timed law (idOf (path.map (·.toSite)))) env (path.map (·.toSite)) m S Calm)
    (watched : ∀ a, law a → a.WatchedAs (nodeOf path).kind) :
    Does timed env path m (fun a ds => ∃ acts, S a acts ∧ ds = acts.map .act) HangingOver := by
  have lawful (a : Act ν) (kept : law a) : (Telling.deeds timed env path).lawful (.act a) := by
    refine ⟨.act, ?_⟩
    rintro _ ⟨⟩
    exact watched a kept
  refine (h.deeds (U := .deeds timed env path) rfl (fun _ => rfl) lawful).mono (fun _ _ s => s) ?_
  rintro halt _ ⟨calm, acts, rfl⟩
  exact ⟨⟨fun r member => by simp at member, calm⟩, onlyPasses_acts acts⟩

/-- Watchers are told one after the other, and that is code of the user. -/
theorem does_watchers (test : place.descriptor.kind = .test) (tell : Watcher σ ν → Program σ ν Unit)
    {es : List (Extension σ ν)} (each : ∀ e ∈ es, e.watcher.isSome) (c : Collector) :
    Does timed env (place :: path) (collectAll c (es.filterMap fun e => e.watcher.map fun watcher =>
      Engine.step (.watcher e.name) (observe (tell watcher)))) (fun _ ds => TellsEach env path place tell es ds)
      HangingOver := by
  induction es generalizing c with
  | nil => exact .pure .nil
  | cons e es ih =>
    obtain ⟨watcher, same⟩ := Option.isSome_iff_exists.mp (each e (by simp))
    rw [List.filterMap_cons_some (by rw [same]; rfl)]
    have observed : Performs timed env ((place :: path).map (·.toSite)) (observe (tell watcher)).run _ :=
      ((ActsAsUser.discipline σ ν).observe (tell watcher) _ env _).enacts
    have lawful (inside : List (Act ν)) (unwatched : ∀ a ∈ inside, a.Unwatched) :
        (∀ fault, (Act.step (.watcher e.name) inside fault).WatchedAs place.descriptor.kind) ∧
          (Act.cut (.watcher e.name) inside).WatchedAs place.descriptor.kind :=
      ⟨fun _ => .told test unwatched, .cut test unwatched⟩
    have told := (observed.taken (.watcher e.name) lawful).does fun _ kept => kept
    refine Goes.bind (told.bind (fun outcome ds s => .pure ?_) fun _ _ h => h)
      (S := fun _ ds => ∃ outcome inside, ds = [.act (.step (.watcher e.name) inside (faultOf outcome))] ∧
        (∀ a ∈ inside, a.OfUser) ∧ Enacts env (place :: path) (observe (tell watcher)).run outcome
          (Act.entriesAll place.descriptor.id inside)) ?_ ?_
    · obtain ⟨_, ⟨inside, ⟨ofUser, enacts⟩, rfl⟩, rfl⟩ := s
      exact ⟨outcome, inside, rfl, ofUser, enacts⟩
    · rintro c' _ ⟨outcome, inside, rfl, ofUser, enacts⟩
      refine (ih (fun e member => each e (by simp [member])) c').mono ?_ fun _ _ h =>
        h.behind (by simp [Unfinished]) (by simp [OnlyPasses])
      exact fun _ ds rest => .told same enacts ofUser rest
    · exact fun _ _ h => h

theorem does_announce (tell : Watcher σ ν → Program σ ν Unit) : Does timed env (place :: path)
    (announce place.descriptor tell) (fun _ ds => TellsEach env path place tell place.watching ds) HangingOver := by
  unfold announce Place.watching
  split
  · rename_i test
    refine Goes.bind (Goes.extensions (E := HangingOver) _) ?_ fun _ _ h => h
    rintro es _ ⟨rfl, rfl⟩
    have each (e : Extension σ ν) (member : e ∈ place.registry.extensions .watcher) : e.watcher.isSome := by
      have has : e.has .watcher = true := Registry.has_of_mem member
      exact has
    exact (does_watchers test tell each .empty).discard fun _ _ told => told
  · exact .pure .nil

theorem raised_watchers {r : Registry (Extension σ ν)} {told : List (Deed σ ν)}
    (turns : InTurn r.watcherSteps told) : raised told = [] := by
  have silent : ∀ P ∈ r.watcherSteps, ∀ s, P s → ∃ name, s = .watcher name := by
    intro P member s p
    obtain ⟨e, _, rfl⟩ := List.mem_map.mp member
    exact ⟨e.name, p⟩
  generalize r.watcherSteps = plan at turns silent
  induction turns with
  | nil => rfl
  | step p _ ih =>
    obtain ⟨name, rfl⟩ := silent _ (by simp) _ p
    exact ih fun P member => silent P (by simp [member])

theorem raised_announced {told : List (Deed σ ν)} (turns : InTurn place.watcherSteps told) :
    raised told = [] := by
  unfold Place.watcherSteps at turns
  split at turns
  · exact raised_watchers turns
  · cases turns
    rfl

theorem closing_counted : Counted (· = .closeStore) := fun _ => Step.noConfusion

/-- A node that is finished has a result that sums up its errors and that of closing its store. -/
theorem does_finish (place : Place σ ν) (c : Collector) :
    Does timed env (place :: path) (finish place.descriptor c.toResult) (fun _ ds => Finish place ds ∧
      ResultTold env path place ds ∧
      ∀ es, Collects c.primary es → ∀ r, .report (.finished r) ∈ ds → r.Tells (es ++ raised ds)) Hanging := by
  refine conducts_closeStore.does.bind ?_ fun _ _ h => (h.2.hangingOver h.1).1
  rintro outcome _ ⟨underway, notes, rfl⟩
  refine (does_announce _).bind ?_ fun _ _ h => Hanging.behind underway.unfinished h.1
  intro _ told tells
  have turns := tells.watcherSteps
  refine (does_report _ (.finished _) (E := Hanging)).mono ?_ fun _ _ h => ?_
  · rintro _ _ rfl
    refine ⟨⟨notes.map .note, faultOf outcome, told, _, rfl, turns⟩, .behind notes tells, fun es gathers r member => ?_⟩
    have only : r = c.toResult.withCleanup (toCleanup outcome) := by
      rcases List.mem_append.mp member with first | rest
      · exact absurd first (underway.unfinished r)
      · rcases List.mem_append.mp rest with second | last
        · exact absurd second (turns.unfinished r)
        · simpa using last
    have result : r = (c.record outcome).toResult := by
      rw [only, ← ExecutionResult.withCleanup_toResult]
      cases outcome <;> rfl
    rw [result]
    have closed : Collects (raisedBy outcome)
        (raised [(.act (.step .closeStore (notes.map .note) (faultOf outcome)) : Deed σ ν)]) :=
      closing_counted.gathers rfl _ outcome
    rw [raised_append, raised_append, raised_announced turns]
    simpa using (gathers.record closed).toResult
  · exact Hanging.behind underway.unfinished (Hanging.behind turns.unfinished h)

end
end TestEngine

import Mathlib.Data.List.Perm.Subperm
import TestEngine.Proofs.Chronicles
import TestEngine.Proofs.Leaves
import TestEngine.Proofs.Ranking

/-! How a node that is entered comes to its end. Whatever it does before, in the end its store is closed: behind the
nodes below it, and with all that was put into it and not removed. -/
namespace TestEngine
variable {σ ν α β : Type}

open Execution Happening

namespace Action

def errors : List (Action σ ν Unit) → σ → List TestError
  | [], _ => []
  | action :: rest, s => (raisedBy (action s).1).toList ++ errors rest (action s).2.2

theorem gather_eq (c : Collector) (actions : List (Action σ ν Unit)) (s : σ) :
    (gather c actions s).1 = .ok ((errors actions s).foldl Collector.add c) := by
  induction actions generalizing c s with
  | nil => rfl
  | cons action rest ih =>
    simp only [gather, ih, errors, List.foldl_append]
    cases (action s).1 <;> rfl

/-- All actions are run, and what they raise is raised as a collector gathers it. -/
theorem all_eq (actions : List (Action σ ν Unit)) (s : σ) :
    all actions s = (match ((errors actions s).foldl Collector.add .empty).primary with
      | none => .ok ()
      | some e => .error (.error e), inOrder actions s) := by
  refine Prod.ext ?_ (all_inOrder actions s)
  have gathered := gather_eq .empty actions s
  rcases ran : gather .empty actions s with ⟨outcome, notes, s'⟩
  rw [ran] at gathered
  cases gathered
  simp only [all, bind, ran]
  cases ((errors actions s).foldl Collector.add .empty).primary <;> rfl

/-- What all of them raise is raised together. -/
theorem gathers_all (actions : List (Action σ ν Unit)) (s : σ) :
    Gathers (raisedBy (all actions s).1) (errors actions s) := by
  have gathers : Gathers ((errors actions s).foldl Collector.add .empty).primary (errors actions s) :=
    Collector.gathers_foldl .nil _
  rw [all_eq]
  cases primary : ((errors actions s).foldl Collector.add .empty).primary <;> rwa [primary] at gathers

end Action

/-- The errors are part of the result: each is there with its kind and message, primary or suppressed. -/
def ExecutionResult.Includes (r : ExecutionResult) (es : List TestError) : Prop :=
  (TestError.flattenAll es).Subperm (TestError.flattenAll r.error?.toList)

theorem ExecutionResult.includes_withCleanup (r : ExecutionResult) {outcome : Except Fault Unit}
    {es : List TestError} (gathers : Gathers (raisedBy outcome) es) :
    (r.withCleanup (toCleanup outcome)).Includes es := by
  cases outcome with
  | ok =>
    rw [gathers.none_iff.mp rfl]
    exact List.nil_subperm
  | error fault =>
    have before : Gathers (Collector.mk r.error?).primary r.error?.toList := by
      show Gathers r.error? _
      cases r.error? with
      | none => exact .nil
      | some e => exact .single e
    have both := (before.add gathers).flattened
    show (TestError.flattenAll es).Subperm (TestError.flattenAll (Collector.toResult _).error?.toList)
    rw [error?_toResult]
    rw [TestError.flattenAll_append] at both
    exact (List.sublist_append_right _ _).subperm.trans both.symm.subperm

def Entry.isOfUser : Entry ν → Bool
  | .note _ => true
  | .event e =>
    match e.kind with
    | .entry _ => true
    | .registered | .started | .skipped _ | .finished _ => false
  | .step _ s _ => s.isAsking
  | .locked _ _ | .unlocked _ => false

theorem Entry.isRoutine_of_isOfUser {e : Entry ν} (user : e.isOfUser = true) : e.isRoutine = true := by
  cases e with
  | note | locked | unlocked => rfl
  | event e => cases kind : e.kind <;> simp_all [isOfUser, isRoutine]
  | step id s phase => simpa [isRoutine] using (Step.apart_of_isPlain (Step.isPlain_of_isAsking user)).2

namespace Happening

/-- What code of the user does at a node. It has no steps but those in which other code of the user is asked. -/
def isLocal : Happening σ ν → Bool
  | .entry e => e.isOfUser
  | .asked _ _ _ => true
  | .closed _ _ | .inside _ _ => false

def isRoutine : Happening σ ν → Bool
  | .entry e => e.isRoutine
  | .asked _ _ _ | .inside _ _ => true
  | .closed _ _ => false

theorem isRoutine_of_isLocal {h : Happening σ ν} (local' : h.isLocal = true) : h.isRoutine = true := by
  cases h with
  | entry => exact Entry.isRoutine_of_isOfUser local'
  | asked => rfl
  | closed | inside => contradiction

/-- What closing a store runs behind these happenings: what closes each resource that was put into it and not
removed since, the newest first. -/
def released (before : List (Happening σ ν)) : List (Action σ ν Unit) :=
  Store.newestFirst (Store.surviving (requestsAll 0 before))

inductive Everywhere (P : Site σ ν → List (Happening σ ν) → Prop) : Happening σ ν → Prop where
  | entry : Everywhere P (.entry e)
  | asked : Everywhere P (.asked level key request)
  | closed : Everywhere P (.closed actions user)
  | inside : P site hs → (∀ h ∈ hs, Everywhere P h) → Everywhere P (.inside site hs)

end Happening

/-- Watchers with these names are told, one after the other. Nothing else is done at the node meanwhile. -/
inductive Notified (id : UniqueId) : List String → List (Happening σ ν) → Prop where
  | nil : Notified id [] []
  | told {acts : List (Happening σ ν)} : (∀ h ∈ acts, h.isLocal = true) → Notified id names rest →
      Notified id (name :: names) (.entry (.step id (.watcher name) .began) :: acts ++
        .entry (.step id (.watcher name) (.ended fault)) :: rest)

def Site.watchers (s : Site σ ν) : List String :=
  if s.descriptor.kind = .test then (s.registry.extensions .watcher).map (·.name) else []

def Site.report (s : Site σ ν) (kind : EventKind) : Happening σ ν := .entry (.event (.of s.descriptor.node kind))

/-- How a node that is entered comes to its end. Its store is closed once: nothing is closed before but the stores
of nodes below, and none of these is entered behind it. What is run is what closes the resources that were put into
it before, if their keys have not been removed since. Where the node was started, only watchers are told behind that,
and the result is reported; what closing has raised is part of it. -/
inductive Concluded (s : Site σ ν) : List (Happening σ ν) → Prop where
  | started {entrance course : List (Happening σ ν)} : (∀ h ∈ entrance ++ course, h.isRoutine = true) →
      before = entrance ++ s.report .started :: course → Notified s.descriptor.id s.watchers told →
      r.Includes (Action.errors (released before) user) →
      Concluded s (before ++ .closed (released before) user :: told ++ [s.report (.finished r)])
  | skipped {entrance below : List (Happening σ ν)} : (∀ h ∈ entrance ++ below, h.isRoutine = true) →
      Notified s.descriptor.id s.watchers told → before = entrance ++ s.report (.skipped reason) :: told ++ below →
      Concluded s (before ++ [.closed (released before) user])

def Local (env : Environment σ ν) (m : Engine σ ν α) : Prop :=
  ∀ w, ∃ hs, Chronicles env m w hs ∧ ∀ h ∈ hs, h.isLocal = true

namespace Local
variable {env : Environment σ ν} {m : Engine σ ν α}

theorem steady (h : ∀ w : World σ ν, w.Steady (m.goes env w).2) : Local env m := fun _ => ⟨[], .steady h, nofun⟩

theorem bind {k : α → Engine σ ν β} (first : Local env m) (second : ∀ a, Local env (k a)) : Local env (m >>= k) := by
  intro w
  obtain ⟨hs, chronicles, local'⟩ := first w
  rcases outcome : m.goes env w with ⟨halt | a, w'⟩
  · exact ⟨hs, chronicles.broken outcome, local'⟩
  · obtain ⟨gs, more, local''⟩ := second a w'
    exact ⟨hs ++ gs, chronicles.bind outcome more, List.forall_mem_append.mpr ⟨local', local''⟩⟩

theorem append {e : Entry ν} (user : e.isOfUser = true) : Local env (Engine.append e) := fun _ =>
  ⟨_, .append, List.forall_mem_singleton.mpr user⟩

theorem step {code : Attempt σ ν α} (h : Local env code.run) {s : Step} (asking : s.isAsking = true) :
    Local env (Engine.step s code).run := by
  intro w
  obtain ⟨hs, chronicles, local'⟩ := h (w.mark s .began)
  refine ⟨_, chronicles.step, ?_⟩
  simpa [isLocal, Entry.isOfUser, asking, or_imp, forall_and] using local'

theorem before (deadline : Duration) (label : String) {code : Attempt σ ν α} (h : Local env code.run) :
    Local env (Engine.before deadline label code).run := fun w =>
  have ⟨hs, chronicles, local'⟩ := h { w with timeLeft := some deadline }
  ⟨hs, chronicles.before, local'⟩

theorem notes (notes : List ν) : ∀ h ∈ notes.map fun n => (.entry (.note n) : Happening σ ν), h.isLocal = true := by
  intro h member
  obtain ⟨n, _, rfl⟩ := List.mem_map.mp member
  rfl

/-- Whatever stores are asked for, code of the user stays at its node. -/
theorem discipline (env : Environment σ ν) : Discipline fun _ m => Local env m where
  still h := steady fun w =>
    have still := (h env w).2
    ⟨World.sites_congr still.stands, still.stores, still.trace⟩
  halt _ := steady fun _ => ⟨rfl, rfl, rfl⟩
  bind := bind
  note _ := append rfl
  publish _ _ := append rfl
  act _ _ := ⟨_, .act, notes _⟩
  askStore levelsUp key request w := by
    obtain ⟨told, same⟩ : ∃ told : List ν, ((Engine.askStore levelsUp key request).goes env w).2.trace.toList =
        w.trace.toList ++ told.map .note := by
      rw [goes_askStore]
      split
      · exact ⟨[], by simp⟩
      · exact ⟨_, by rw [Array.toList_append]⟩
    refine ⟨_, .asked same, List.forall_mem_cons.mpr ⟨rfl, notes _⟩⟩
  step h asking := h.step asking

end Local

/-- If the code comes to its end from a world, it has a chronicle, of which a condition holds. -/
def Records (env : Environment σ ν) (w : World σ ν) (m : Engine σ ν α) (S : α → List (Happening σ ν) → Prop) : Prop :=
  ∀ a w', m.goes env w = (.ok a, w') → ∃ hs, Chronicles env m w hs ∧ S a hs

namespace Records
variable {env : Environment σ ν} {w : World σ ν} {m : Engine σ ν α} {S R : α → List (Happening σ ν) → Prop}

theorem steady (h : ∀ w : World σ ν, w.Steady (m.goes env w).2)
    (holds : ∀ a w', m.goes env w = (.ok a, w') → S a []) : Records env w m S :=
  fun a w' goes => ⟨[], .steady h, holds a w' goes⟩

theorem pure {a : α} (holds : S a []) : Records env w (pure a) S := by
  refine steady (fun _ => ⟨rfl, rfl, rfl⟩) fun b w' goes => ?_
  cases goes
  exact holds

theorem of_local (h : Local env m) (holds : ∀ a hs, (∀ h ∈ hs, h.isLocal = true) → S a hs) : Records env w m S :=
  fun a _ _ =>
    have ⟨hs, chronicles, local'⟩ := h w
    ⟨hs, chronicles, holds a hs local'⟩

theorem mono (h : Records env w m S) (implies : ∀ a hs, S a hs → R a hs) : Records env w m R := fun a w' goes =>
  have ⟨hs, chronicles, s⟩ := h a w' goes
  ⟨hs, chronicles, implies a hs s⟩

theorem bind {k : α → Engine σ ν β} {R : β → List (Happening σ ν) → Prop} (first : Records env w m S)
    (second : ∀ a w' hs, m.goes env w = (.ok a, w') → Chronicles env m w hs → S a hs →
      Records env w' (k a) fun b gs => R b (hs ++ gs)) : Records env w (m >>= k) R := by
  intro b w'' goes
  rw [Engine.goes_bind] at goes
  rcases outcome : m.goes env w with ⟨halt | a, w'⟩ <;> rw [outcome] at goes
  · cases goes
  · obtain ⟨hs, chronicles, s⟩ := first a w' outcome
    obtain ⟨gs, more, r⟩ := second a w' hs outcome chronicles s b w'' goes
    exact ⟨hs ++ gs, chronicles.bind outcome more, r⟩

theorem map (h : Records env w m S) (f : α → β) {R : β → List (Happening σ ν) → Prop}
    (implies : ∀ a hs, S a hs → R (f a) hs) : Records env w (f <$> m) R := by
  rw [map_eq_pure_bind]
  exact h.bind fun a _ hs _ _ s => .pure (by simpa using implies a hs s)

theorem step {code : Attempt σ ν α} {s : Step} {S : Except Fault α → List (Happening σ ν) → Prop}
    (h : Records env (w.mark s .began) code.run S) :
    Records env w (Engine.step s code).run fun outcome hs => ∃ acts, S outcome acts ∧
      hs = .entry (.step w.currentId s .began) :: acts ++ [.entry (.step w.currentId s (.ended (faultOf outcome)))] := by
  intro outcome w' goes
  rw [Engine.goes_step] at goes
  obtain ⟨ended, rfl⟩ := Prod.mk.inj goes
  obtain ⟨hs, chronicles, s⟩ := h outcome _ (Prod.ext ended rfl)
  refine ⟨_, chronicles.step, hs, s, ?_⟩
  rw [ended]
  cases outcome <;> rfl

end Records

abbrev Orders (hs : List (Happening σ ν)) : Prop := ∀ h ∈ hs, h.Everywhere Concluded

/-- The code enters nodes and brings them to their end, and does nothing else with the stores of others but to ask
them. -/
def Orderly (env : Environment σ ν) (m : Engine σ ν α) : Prop :=
  ∀ w, Records env w m fun _ hs => (∀ h ∈ hs, h.isRoutine = true) ∧ Orders hs

/-- Run at a node, behind what has already been done there, the code brings that to its end. -/
def Concludes (env : Environment σ ν) (node : Descriptor σ ν) (m : Engine σ ν Unit) : Prop :=
  ∀ w f above before, w.frames = f :: above → f.descriptor = node →
    f.store.resources = Store.surviving (requestsAll 0 before) → (∀ h ∈ before, h.isRoutine = true) →
    Records env w m fun _ hs => Concluded f.site (before ++ hs) ∧ Orders hs

theorem orders_of_local {hs : List (Happening σ ν)} (h : ∀ h ∈ hs, h.isLocal = true) : Orders hs := by
  intro x member
  have local' := h x member
  cases x with
  | entry => exact .entry
  | asked => exact .asked
  | closed | inside => contradiction

namespace Orderly
variable {env : Environment σ ν} {m : Engine σ ν α}

theorem of_local (h : Local env m) : Orderly env m := fun _ =>
  .of_local h fun _ _ local' => ⟨fun x member => isRoutine_of_isLocal (local' x member), orders_of_local local'⟩

theorem bind {k : α → Engine σ ν β} (first : Orderly env m) (second : ∀ a, Orderly env (k a)) :
    Orderly env (m >>= k) := by
  intro w
  refine (first w).bind fun a w' hs _ _ ⟨routine, orders⟩ => (second a w').mono ?_
  rintro b gs ⟨routine', orders'⟩
  exact ⟨List.forall_mem_append.mpr ⟨routine, routine'⟩, List.forall_mem_append.mpr ⟨orders, orders'⟩⟩

theorem append {e : Entry ν} (routine : e.isRoutine = true) : Orderly env (Engine.append e) := fun _ _ _ _ =>
  ⟨_, .append, List.forall_mem_singleton.mpr routine, List.forall_mem_singleton.mpr .entry⟩

theorem step {code : Attempt σ ν α} (h : Orderly env code.run) {s : Step} (apart : s.isOfEnding = false) :
    Orderly env (Engine.step s code).run := by
  intro w
  refine (h (w.mark s .began)).step.mono ?_
  rintro outcome _ ⟨acts, ⟨routine, orders⟩, rfl⟩
  constructor
  · simpa [isRoutine, Entry.isRoutine, apart, or_imp, forall_and] using routine
  · exact List.forall_mem_append.mpr ⟨List.forall_mem_cons.mpr ⟨.entry, orders⟩, List.forall_mem_singleton.mpr .entry⟩

theorem settings_bind {k : Settings → Engine σ ν β} (h : Orderly env (k env.settings)) :
    Orderly env (Engine.settings >>= k) := by
  intro w
  have read : Records env w Engine.settings fun s hs => s = env.settings ∧ hs = [] := by
    refine .steady (fun _ => ⟨rfl, rfl, rfl⟩) fun s w' goes => ?_
    cases goes
    exact ⟨rfl, rfl⟩
  refine read.bind ?_
  rintro _ w' _ _ _ ⟨rfl, rfl⟩
  exact h w'

theorem practice (env : Environment σ ν) : Practice fun _ m => Orderly env m where
  still h := of_local ((Local.discipline env).still h)
  halt _ _ _ _ goes := by cases goes
  bind := bind
  note n := of_local ((Local.discipline env).note n)
  publish node values := of_local ((Local.discipline env).publish node values)
  act action := of_local ((Local.discipline env).act action)
  askStore levelsUp key request := of_local ((Local.discipline env).askStore levelsUp key request)
  step h asking := h.step (Step.apart_of_isPlain (Step.isPlain_of_isAsking asking)).2
  plain h plain := h.step (Step.apart_of_isPlain plain).2

end Orderly

section
variable {env : Environment σ ν} {w : World σ ν} {f : Frame σ ν} {above : List (Frame σ ν)}

theorem records_closeStore (frames : w.frames = f :: above) :
    Records env w (closeStore : Attempt σ ν Unit).run fun outcome hs =>
      outcome = (Action.all (Store.newestFirst f.store.resources) w.user).1 ∧
        hs = [.closed (Store.newestFirst f.store.resources) w.user] := by
  intro outcome w' goes
  rw [goes_closeStore frames] at goes
  cases goes
  exact ⟨_, .closed frames, rfl, rfl⟩

theorem records_watchers (tell : Watcher σ ν → Program σ ν Unit) {es : List (Extension σ ν)}
    (each : ∀ e ∈ es, e.watcher.isSome) (c : Collector) :
    Records env w (collectAll c (es.filterMap fun e => e.watcher.map fun watcher =>
      Engine.step (.watcher e.name) (observe (tell watcher)))) fun _ hs =>
        Notified w.currentId (es.map (·.name)) hs := by
  induction es generalizing c w with
  | nil => exact .pure .nil
  | cons e es ih =>
    obtain ⟨watcher, same⟩ := Option.isSome_iff_exists.mp (each e (by simp))
    have observes : Local env (observe (tell watcher)).run := (Local.discipline env).observe _
    have one : Records env w (collect c (Engine.step (.watcher e.name) (observe (tell watcher)))) fun _ hs =>
        ∃ acts fault, (∀ h ∈ acts, h.isLocal = true) ∧
          hs = .entry (.step w.currentId (.watcher e.name) .began) :: acts ++
            [.entry (.step w.currentId (.watcher e.name) (.ended fault))] := by
      refine (Records.of_local observes fun _ _ local' => local').step.bind ?_
      rintro outcome _ _ _ _ ⟨acts, local', rfl⟩
      exact .pure ⟨acts, _, local', List.append_nil _⟩
    rw [List.filterMap_cons_some (by rw [same]; rfl)]
    refine one.bind ?_
    rintro c' w' _ goes chronicles ⟨acts, fault, local', rfl⟩
    have id := chronicles.currentId
    rw [goes] at id
    refine (ih (fun e member => each e (by simp [member])) c').mono fun _ rest notified => ?_
    rw [id] at notified
    simpa using notified.told local'

theorem records_announce {s : Site σ ν} (tell : Watcher σ ν → Program σ ν Unit) (frames : w.frames = f :: above)
    (site : f.site = s) : Records env w (announce s.descriptor tell) fun _ hs =>
      Notified s.descriptor.id s.watchers hs := by
  have id : w.currentId = s.descriptor.id := by simp [World.currentId, frames, ← site, Frame.site]
  unfold announce Site.watchers
  split
  · refine (Records.steady (S := fun es hs => es = s.registry.extensions .watcher ∧ hs = []) ?_ ?_).bind ?_
    · exact fun _ => ⟨rfl, rfl, rfl⟩
    · intro es w' goes
      cases goes
      simp [frames, ← site, Frame.site]
    · rintro es w' _ goes _ ⟨rfl, rfl⟩
      obtain rfl : w = w' := congrArg Prod.snd goes
      rw [← id]
      refine (records_watchers tell (fun e member => ?_) .empty).map _ fun _ _ notified => notified
      exact Registry.has_of_mem member
  · exact .pure .nil

theorem records_report (s : Site σ ν) (kind : EventKind) : Records env w (Engine.report s.descriptor.node kind)
    fun _ hs => hs = [s.report kind] := fun _ _ _ => ⟨_, .append, rfl⟩

theorem unclosed_of_routine {hs : List (Happening σ ν)} (h : ∀ h ∈ hs, h.isRoutine = true) :
    ∀ h ∈ hs, h.isClosing = false := by
  intro x member
  have routine := h x member
  cases x with
  | closed => contradiction
  | entry | asked | inside => rfl

theorem Notified.stays {id : UniqueId} {names : List String} {told : List (Happening σ ν)}
    (h : Notified id names told) : (∀ h ∈ told, h.isClosing = false) ∧ Orders told := by
  induction h with
  | nil => exact ⟨nofun, nofun⟩
  | told local' _ ih =>
    have unclosed := unclosed_of_routine fun h member => isRoutine_of_isLocal (local' h member)
    have orders := orders_of_local local'
    simp only [List.cons_append, List.forall_mem_cons, List.forall_mem_append]
    exact ⟨⟨rfl, unclosed, rfl, ih.1⟩, .entry, orders, .entry, ih.2⟩

theorem site_behind {m : Engine σ ν α} {w' : World σ ν} {hs : List (Happening σ ν)} (frames : w.frames = f :: above)
    (goes : m.goes env w = (.ok a, w')) (chronicles : Chronicles env m w hs) :
    ∃ f' above', w'.frames = f' :: above' ∧ f'.site = f.site := by
  have sites := chronicles.sites
  rw [goes, frames] at sites
  obtain ⟨f', above', frames', site, _⟩ := List.map_eq_cons_iff.mp sites
  exact ⟨f', above', frames', site⟩

/-- Code that closes no store of the node leaves its store with what was put into it and not removed. -/
theorem kept_behind {m : Engine σ ν α} {w' : World σ ν} {before hs : List (Happening σ ν)}
    (frames : w.frames = f :: above) (kept : f.store.resources = Store.surviving (requestsAll 0 before))
    (goes : m.goes env w = (.ok a, w')) (chronicles : Chronicles env m w hs)
    (unclosed : ∀ h ∈ hs, h.isClosing = false) :
    ∃ f' above', w'.frames = f' :: above' ∧ f'.site = f.site ∧
      f'.store.resources = Store.surviving (requestsAll 0 (before ++ hs)) := by
  obtain ⟨f', above', frames', site⟩ := site_behind frames goes chronicles
  have resources := chronicles.resources 0 fun _ => unclosed
  rw [goes] at resources
  simp only [World.resources, frames, frames', List.getElem?_cons_zero, Option.map_some] at resources
  refine ⟨f', above', frames', site, ?_⟩
  rw [Option.some.inj resources, kept, ← Store.keepAll_nil, ← Store.keepAll_nil, requestsAll_append]
  simp [Store.keepAll]

variable {node : Descriptor σ ν}

theorem concludes_first {m : Engine σ ν α} {k : α → Engine σ ν Unit} (first : Orderly env m)
    (second : ∀ a, Concludes env node (k a)) : Concludes env node (m >>= k) := by
  intro w f above before frames descriptor kept routine
  refine (first w).bind ?_
  rintro a w' hs goes chronicles ⟨routine', orders⟩
  obtain ⟨f', above', frames', site, kept'⟩ :=
    kept_behind frames kept goes chronicles (unclosed_of_routine routine')
  have here : f'.descriptor = node := (congrArg Site.descriptor site).trans descriptor
  refine (second a w' f' above' _ frames' here kept' (List.forall_mem_append.mpr ⟨routine, routine'⟩)).mono ?_
  rintro _ gs ⟨concluded, orders'⟩
  rw [site, List.append_assoc] at concluded
  exact ⟨concluded, List.forall_mem_append.mpr ⟨orders, orders'⟩⟩

/-- A node that is started has its store closed before watchers are told and the result is reported. -/
theorem concludes_started {m : Engine σ ν α} {result : α → ExecutionResult} (h : Orderly env m) :
    Concludes env node (do Engine.report node.node .started; finish node (result (← m))) := by
  rintro w f above entrance frames rfl kept routine
  refine (records_report f.site .started).bind ?_
  rintro _ w₁ _ goes₁ chronicles₁ rfl
  obtain ⟨f₁, above₁, frames₁, site₁, kept₁⟩ :=
    kept_behind frames kept goes₁ chronicles₁ (by simp [Site.report, isClosing])
  refine (h w₁).bind ?_
  rintro a w₂ course goes₂ chronicles₂ ⟨routine', orders⟩
  obtain ⟨f₂, above₂, frames₂, site₂, kept₂⟩ :=
    kept_behind frames₁ kept₁ goes₂ chronicles₂ (unclosed_of_routine routine')
  refine (records_closeStore frames₂).bind ?_
  rintro outcome w₃ _ goes₃ chronicles₃ ⟨rfl, rfl⟩
  obtain ⟨f₃, above₃, frames₃, site₃⟩ := site_behind frames₂ goes₃ chronicles₃
  have site : f₃.site = f.site := site₃.trans (site₂.trans site₁)
  refine (records_announce _ frames₃ site).bind ?_
  rintro _ w₄ told _ _ notified
  refine (records_report f.site _).mono ?_
  rintro _ _ rfl
  let before := entrance ++ f.site.report .started :: course
  have same : released before = Store.newestFirst f₂.store.resources := by simp [before, released, kept₂]
  have includes := (result a).includes_withCleanup (Action.gathers_all (released before) w₂.user)
  constructor
  · have concluded := Concluded.started (List.forall_mem_append.mpr ⟨routine, routine'⟩) rfl notified includes
    simpa [same, before, List.append_assoc] using concluded
  · simp only [List.forall_mem_append, List.forall_mem_singleton]
    exact ⟨.entry, orders, .closed, notified.stays.2, .entry⟩

/-- So has a node that is skipped, behind the nodes below it. -/
theorem concludes_skipped (reason : String) {below : Engine σ ν Unit} (h : Orderly env below) :
    Concludes env node (reportSkipped node reason below) := by
  rintro w f above entrance frames rfl kept routine
  refine (records_report f.site (.skipped reason)).bind ?_
  rintro _ w₁ _ goes₁ chronicles₁ rfl
  obtain ⟨f₁, above₁, frames₁, site₁, kept₁⟩ :=
    kept_behind frames kept goes₁ chronicles₁ (by simp [Site.report, isClosing])
  refine (records_announce _ frames₁ site₁).bind ?_
  rintro _ w₂ told goes₂ chronicles₂ notified
  obtain ⟨f₂, above₂, frames₂, site₂, kept₂⟩ := kept_behind frames₁ kept₁ goes₂ chronicles₂ notified.stays.1
  refine (h w₂).bind ?_
  rintro _ w₃ below goes₃ chronicles₃ ⟨routine', orders⟩
  obtain ⟨f₃, above₃, frames₃, site₃, kept₃⟩ :=
    kept_behind frames₂ kept₂ goes₃ chronicles₃ (unclosed_of_routine routine')
  refine (records_closeStore frames₃).map _ ?_
  rintro _ _ ⟨rfl, rfl⟩
  let before := entrance ++ f.site.report (.skipped reason) :: told ++ below
  have same : released before = Store.newestFirst f₃.store.resources := by simp [before, released, kept₃]
  constructor
  · have concluded : Concluded f.site (before ++ [.closed (released before) w₃.user]) :=
      .skipped (List.forall_mem_append.mpr ⟨routine, routine'⟩) notified rfl
    rw [same] at concluded
    simpa [before, List.append_assoc] using concluded
  · simp only [List.forall_mem_append, List.forall_mem_singleton]
    exact ⟨.entry, notified.stays.2, orders, .closed⟩

/-- A node is entered with an empty store. -/
theorem orderly_within {m : Engine σ ν Unit} (empty : f.store = {}) (h : Concludes env f.descriptor m) :
    Orderly env (Engine.within f m) := by
  intro w a w' goes
  rw [Engine.goes_within] at goes
  obtain ⟨ended, -⟩ := Prod.mk.inj goes
  obtain ⟨hs, chronicles, concluded, orders⟩ :=
    h { w with frames := f :: w.frames } f w.frames [] rfl rfl (by rw [empty]; rfl) nofun a _ (Prod.ext ended rfl)
  refine ⟨_, .within chronicles empty, List.forall_mem_singleton.mpr rfl, List.forall_mem_singleton.mpr ?_⟩
  exact .inside concluded orders

end

theorem Orderly.regime (env : Environment σ ν) :
    Regime (fun _ m => Orderly env m) (Concludes env) where
  toPractice := Orderly.practice env
  mark routine _ := .append routine
  timed deadline label m inst := .of_local (((Local.discipline env).invoke m inst).before deadline label)
  abandon _ := .of_local (.steady fun _ => ⟨rfl, rfl, rfl⟩)
  first := concludes_first
  started := concludes_started
  skipped := concludes_skipped
  within := orderly_within

end TestEngine

import TestEngine.Proofs.Bookkeeping
import TestEngine.Proofs.Containment
import TestEngine.Proofs.Governing

/-! Nodes that are skipped. All that is declared below such a node is skipped with it, for the same reason and at
once. The only code of the user that is run for them asks the conditions of the node itself, tells watchers, and
closes what these have stored. -/
namespace TestEngine
variable {σ ν α β : Type}

open Deed Execution Happening

/-- The store of a node with some resources is first closed with what it has kept of them, and what was put into it
since. -/
def Releases (kept : List (Store.Resource σ ν)) (hs : List (Happening σ ν)) : Prop :=
  ∀ before closing user after, hs = before ++ .closed closing user :: after →
    (∀ h ∈ before, h.isClosing = false) → closing = Store.newestFirst (Store.keepAll kept (requestsAll 0 before))

namespace Releases
variable {kept : List (Store.Resource σ ν)} {hs gs : List (Happening σ ν)}

theorem of_unclosed (h : ∀ h ∈ hs, h.isClosing = false) : Releases kept hs := by
  rintro before closing user after rfl _
  have unclosed := h (.closed closing user) (by simp)
  simp [isClosing] at unclosed

theorem append (first : Releases kept hs)
    (second : (∀ h ∈ hs, h.isClosing = false) → Releases (Store.keepAll kept (requestsAll 0 hs)) gs) :
    Releases kept (hs ++ gs) := by
  intro before closing user after same unclosed
  rcases List.append_eq_append_iff.mp same with ⟨more, rfl, rest⟩ | ⟨more, whole, rest⟩
  · have unclosed := List.forall_mem_append.mp unclosed
    rw [second unclosed.1 more closing user after rest unclosed.2, requestsAll_append]
    simp [Store.keepAll]
  · cases more with
    | nil =>
      rw [List.append_nil] at whole
      subst whole
      simpa [requestsAll, Store.keepAll] using
        second unclosed [] closing user after rest.symm (List.forall_mem_nil _)
    | cons next more =>
      obtain ⟨rfl, rfl⟩ := List.cons.inj rest
      exact first before closing user more whole unclosed

end Releases

/-- Where the store of a node is closed, that runs what closes the resources that were put into it and not removed
since, and nothing else. -/
def ClosesStored (hs : List (Happening σ ν)) : Prop :=
  ∀ before closing user after, hs = before ++ .closed closing user :: after →
    (∀ h ∈ before, h.isClosing = false) → closing = released before

theorem Chronicles.releases {env : Environment σ ν} {m : Engine σ ν α} {w : World σ ν} {hs : List (Happening σ ν)}
    (h : Chronicles env m w hs) :
    (∀ kept, w.resources 0 = some kept → Releases kept hs) ∧ ∀ h ∈ hs, h.Everywhere fun _ hs => ClosesStored hs := by
  induction h with
  | steady => exact ⟨fun _ _ => .of_unclosed nofun, nofun⟩
  | append => exact ⟨fun _ _ => .of_unclosed (by simp [isClosing]), List.forall_mem_singleton.mpr .entry⟩
  | act =>
    refine ⟨fun _ _ => .of_unclosed (by simp [isClosing]), fun h member => ?_⟩
    obtain ⟨n, _, rfl⟩ := List.mem_map.mp member
    exact .entry
  | asked =>
    refine ⟨fun _ _ => .of_unclosed (by simp [isClosing]), List.forall_mem_cons.mpr ⟨.asked, fun h member => ?_⟩⟩
    obtain ⟨n, _, rfl⟩ := List.mem_map.mp member
    exact .entry
  | @closed f above w frames =>
    refine ⟨fun kept here before closing user after same _ => ?_, List.forall_mem_singleton.mpr .closed⟩
    have resources : f.store.resources = kept := by simpa [World.resources, frames] using here
    cases before with
    | nil =>
      obtain ⟨rfl, rfl⟩ := Happening.closed.inj (List.cons.inj same).1
      simp [requestsAll, Store.keepAll, resources]
    | cons => simp at same
  | bind chronicles goes _ first second =>
    refine ⟨fun kept here => (first.1 kept here).append fun unclosed => second.1 _ ?_,
      List.forall_mem_append.mpr ⟨first.2, second.2⟩⟩
    have behind := chronicles.resources 0 fun _ => unclosed
    rw [goes, here] at behind
    exact behind
  | broken _ _ first => exact first
  | @step acts s w α code _ inside =>
    constructor
    · intro kept here
      have entry (e : Entry ν) (kept : List (Store.Resource σ ν)) : Releases kept [.entry e] :=
        .of_unclosed (by simp [isClosing])
      show Releases kept ([_] ++ (acts ++ [_]))
      refine (entry _ kept).append fun _ => (inside.1 _ ?_).append fun _ => entry _ _
      simpa [requestsAll, requests, Store.keepAll, World.resources, World.mark] using here
    · refine List.forall_mem_append.mpr ⟨List.forall_mem_cons.mpr ⟨.entry, inside.2⟩, ?_⟩
      exact List.forall_mem_singleton.mpr .entry
  | before _ inside => exact inside
  | within _ empty inside =>
    refine ⟨fun _ _ => .of_unclosed (by simp [isClosing]), List.forall_mem_singleton.mpr (.inside ?_ inside.2)⟩
    intro before closing user after same unclosed
    rw [released, ← Store.keepAll_nil]
    exact inside.1 [] (by simp [World.resources, empty]) before closing user after same unclosed

def Recorded (env : Environment σ ν) (m : Engine σ ν α) : Prop := ∀ w, ∃ hs, Chronicles env m w hs

namespace Recorded
variable {env : Environment σ ν}

theorem of_local {m : Engine σ ν α} (h : Local env m) : Recorded env m := fun w =>
  have ⟨hs, chronicles, _⟩ := h w
  ⟨hs, chronicles⟩

theorem bind {m : Engine σ ν α} {k : α → Engine σ ν β} (first : Recorded env m) (second : ∀ a, Recorded env (k a)) :
    Recorded env (m >>= k) := by
  intro w
  obtain ⟨hs, chronicles⟩ := first w
  rcases outcome : m.goes env w with ⟨halt | a, w'⟩
  · exact ⟨hs, chronicles.broken outcome⟩
  · obtain ⟨gs, more⟩ := second a w'
    exact ⟨hs ++ gs, chronicles.bind outcome more⟩

theorem step {code : Attempt σ ν α} (h : Recorded env code.run) (s : Step) :
    Recorded env (Engine.step s code).run := fun w =>
  have ⟨_, chronicles⟩ := h (w.mark s .began)
  ⟨_, chronicles.step⟩

theorem append (e : Entry ν) : Recorded (σ := σ) env (Engine.append e) := fun _ => ⟨_, .append⟩

theorem practice (env : Environment σ ν) : Practice fun _ m => Recorded env m where
  still h := of_local ((Local.discipline env).still h)
  halt calm := of_local ((Local.discipline env).halt calm)
  bind := bind
  note _ := append _
  publish _ _ := append _
  act _ _ := ⟨_, .act⟩
  askStore levelsUp key request := of_local ((Local.discipline env).askStore levelsUp key request)
  step h _ := h.step _
  plain h _ := h.step _

theorem closeStore (env : Environment σ ν) : Recorded env (closeStore : Attempt σ ν Unit).run := by
  intro w
  cases frames : w.frames with
  | cons f above => exact ⟨_, .closed frames⟩
  | nil =>
    have top : (Engine.top? : Engine σ ν (Option (Frame σ ν))).goes env w = (.ok none, w) := by
      show (Except.ok w.frames.head?, w) = _
      rw [frames]
      rfl
    unfold Execution.closeStore
    rw [ExceptT.run_bind_lift]
    exact ⟨[] ++ [], .bind (.steady fun _ => ⟨rfl, rfl, rfl⟩) top (.steady fun _ => ⟨rfl, rfl, rfl⟩)⟩

theorem announce (d : Descriptor σ ν) (tell : Watcher σ ν → Program σ ν Unit) : Recorded env (announce d tell) :=
  (practice env).announce (fun h => h.step _) d tell

/-- All of the engine has a chronicle, also where the run is broken off. -/
theorem governs (env : Environment σ ν) : Governs env (fun _ m => Recorded env m) fun _ m => Recorded env m where
  toPractice := practice env
  mark _ _ := append _
  timed deadline label m inst := of_local (((Local.discipline env).invoke m inst).before deadline label)
  abandon _ := of_local (.steady fun _ => ⟨rfl, rfl, rfl⟩)
  first := bind
  started h := bind (append _) fun _ => bind h fun _ => bind (closeStore env) fun _ =>
    bind (announce _ _) fun _ => append _
  skipped _ _ below := bind (append _) fun _ => bind (announce _ _) fun _ => bind below fun _ =>
    (practice env).discard (closeStore env)
  within empty h w :=
    have ⟨_, chronicles⟩ := h { w with frames := _ :: w.frames }
    ⟨_, .within chronicles empty⟩
  stepping h _ := h.step _
  holding _ := of_local (.steady fun w => .modifyTop w _ (fun _ => rfl) fun _ => rfl)
  shows _ := of_local (.steady fun w => .modifyTop w _ (fun _ => rfl) fun _ => rfl)
  panicked payload := of_local (.steady fun _ => ⟨rfl, rfl, rfl⟩)
  settled h := by
    intro w
    obtain ⟨hs, chronicles⟩ := h w
    have read : (Engine.settings : Engine σ ν Settings).goes env w = (.ok env.settings, w) := rfl
    exact ⟨[] ++ hs, .bind (.steady fun _ => ⟨rfl, rfl, rfl⟩) read chronicles⟩

end Recorded

section
variable {env : Environment σ ν} {path : List (Place σ ν)} {v : Visit σ ν} {inside ds : List (Deed σ ν)}
  {d : Deed σ ν}

theorem infix_logAll {node : Node} (member : d ∈ ds) : d.log node <:+: logAll node ds := by
  obtain ⟨before, after, rfl⟩ := List.append_of_mem member
  exact ⟨logAll node before, logAll node after, by simp⟩

/-- What listeners are told of a visit they are told without a break. -/
theorem Deed.Everywhere.told {L : List (Place σ ν) → Visit σ ν → List (Deed σ ν) → Prop} {events : List Event}
    (h : Everywhere L path d) : ∀ node, d.log node <:+: events →
    Everywhere (fun path v inside => L path v inside ∧ Deed.log default (.visit v inside) <:+: events) path d := by
  induction h with
  | act => exact fun _ _ => .act
  | report => exact fun _ _ => .report
  | @visit path v inside law _ ih =>
    intro node within
    rw [log_visit] at within
    refine .visit ⟨law, by rwa [log_visit]⟩ fun d member => ih d member v.descriptor.node ?_
    exact ((infix_logAll member).trans (List.suffix_append _ _).isInfix).trans within

theorem Skip.passedOver {reason : String} (h : Skip v.place reason ds) {p : Visit σ ν × List (Deed σ ν)}
    (member : p ∈ visits ds) : p.1.manner = .passedOver reason ∧ p.1.leaving = .ended := by
  obtain ⟨told, skips, closing, fault, rfl, turns, passed⟩ := h
  exact (visits_each passed).2 p (by simpa [turns.visits] using member)

/-- A node that is skipped because of a node above it. It does nothing else, and its conditions are not asked. -/
structure SkippedWithin (reason : String) (v : Visit σ ν) (inside : List (Deed σ ν)) : Prop where
  manner : v.manner = .passedOver reason
  ended : v.leaving = .ended
  skip : Skip v.place reason inside
  acts : ∀ a, .act a ∈ inside → a.OfSkip

theorem FullLaw.skippedWithin (law : FullLaw timed env path v inside) (manner : v.manner = .passedOver reason)
    (ended : v.leaving = .ended) : SkippedWithin reason v inside :=
  have skip := law.skip manner ended
  ⟨manner, ended, skip, law.skipped ended reason skip.reported⟩

/-- So is all below a node that is skipped. -/
theorem Deed.Everywhere.skippedWithin (lawful : Everywhere (FullLaw timed env) path d) :
    (∀ v inside, d = .visit v inside → v.manner = .passedOver reason ∧ v.leaving = .ended) →
    Everywhere (fun _ v inside => SkippedWithin reason v inside) path d := by
  induction lawful with
  | act => exact fun _ => .act
  | report => exact fun _ => .report
  | @visit path v inside law _ ih =>
    intro passed
    have here := law.skippedWithin (passed v inside rfl).1 (passed v inside rfl).2
    refine .visit here fun d member => ih d member ?_
    rintro w ds rfl
    exact here.skip.passedOver (visit_mem_visits member)

structure SkippedWhole (path : List (Place σ ν)) (events : List Event) (reason : String) (v : Visit σ ν)
    (inside : List (Deed σ ν)) : Prop where
  ended : v.leaving = .ended
  /-- Its conditions have been asked only where it is not skipped because of a node above it. -/
  course : ∃ asked skip, inside = asked ++ skip ∧ Skip v.place reason skip ∧
    (v.manner = .executed ∧ (∃ conditions, asked = admission conditions none) ∨
      v.manner = .passedOver reason ∧ asked = [])
  acts : ∀ a, .act a ∈ inside → a.OfSkip
  /-- All that is declared below is skipped with it. -/
  below : ∀ d ∈ inside, Everywhere (fun _ w ds => SkippedWithin reason w ds) (v.place :: path) d
  /-- Listeners are told of the node and of all below in one go. -/
  told : v.tree.preorder.map (fun d => .of d.node (.skipped reason)) <:+: events

/-- A node that is skipped is so with all that is declared below, if the run does not stay within it. -/
def SkippedTogether (events : List Event) (path : List (Place σ ν)) (v : Visit σ ν) (inside : List (Deed σ ν)) :
    Prop :=
  ∀ reason, v.manner = .passedOver reason ∨ .report (.skipped reason) ∈ inside → v.leaving ≠ .stuck →
    SkippedWhole path events reason v inside

theorem Skip.told {reason : String} (h : Skip v.place reason ds) (path : List (Place σ ν))
    (lawful : ∀ d ∈ ds, Everywhere (Law env) path d) :
    logAll v.descriptor.node ds = v.tree.preorder.map fun d => .of d.node (.skipped reason) := by
  obtain ⟨told, skips, closing, fault, rfl, turns, passed⟩ := h
  have below : logAll v.descriptor.node skips =
      (TestTree.preorderAll v.place.below).map fun d => .of d.node (.skipped reason) := by
    refine logAll_passedOver passed fun t _ d among visits => ?_
    exact log_passedOver t path d _ (lawful d (by simp [among])) visits
  simp [(Plain.of_inTurn turns).logged, turns.logInside, below, Report.kind, Visit.tree, TestTree.preorder]

/-- A panic leaves no node that is skipped. -/
theorem Law.skipEnds {reason : String} (law : Law env path v inside)
    (skipped : v.manner = .passedOver reason ∨ .report (.skipped reason) ∈ inside) (left : v.leaving ≠ .stuck) :
    v.leaving = .ended := by
  cases leaving : v.leaving with
  | ended => rfl
  | stuck => exact absurd leaving left
  | torn payload =>
    obtain ⟨executed, asked, course, rfl, torn⟩ := law.torn payload leaving
    rcases skipped with passedOver | reported
    · rw [executed] at passedOver
      contradiction
    · have among : .report (.skipped reason) ∈ course := by simpa [admission] using reported
      exact absurd rfl (Plain.of_courseTorn torn _ among _)

theorem FullLaw.skippedTogether {events : List Event} (law : FullLaw timed env path v inside)
    (lawful : ∀ d ∈ inside, Everywhere (FullLaw timed env) (v.place :: path) d)
    (told : Deed.log default (.visit v inside) <:+: events) : SkippedTogether events path v inside := by
  intro reason skipped left
  have ended := law.skipEnds skipped left
  have reported : .report (.skipped reason) ∈ inside := skipped.elim (fun m => (law.skip m ended).reported) id
  obtain ⟨asked, skip, same, whole, asking⟩ := (law.ended ended).skip reported
  have silent (node : Node) : visits asked = [] ∧ logAll node asked = [] := by
    rcases asking with ⟨_, conditions, rfl⟩ | ⟨_, rfl⟩ <;> simp [admission]
  refine ⟨ended, ⟨asked, skip, same, whole, asking⟩, law.skipped ended reason reported, fun d member => ?_, ?_⟩
  · refine (lawful d member).skippedWithin ?_
    rintro w ds rfl
    have among : (w, ds) ∈ visits skip := by simpa [same, silent default] using visit_mem_visits member
    exact whole.passedOver among
  · have here := whole.told (v.place :: path) fun d member =>
      (lawful d (by simp [same, member])).mono fun law => law.toLaw
    have behind : logAll v.descriptor.node skip <:+: Deed.log default (.visit v inside) := by
      rw [log_visit, same, logAll_append, (silent _).2]
      exact (List.suffix_append _ _).isInfix
    exact here ▸ behind.trans told

end

section
variable {c : Configuration} {extensions : List (Declared σ ν)} {tree : TestTree σ ν} {user : σ}
  {run : Run σ ν}

/-- Every node of a run that is skipped is so with all that is declared below, for the same reason and at once, and
no code of the user is run for them but that of conditions and watchers, and what closes their stores. In a run on
one thread that is what was put into these stores before. -/
theorem skipped_together (executed : execute c extensions tree user = .ok run)
    (sequential : (Settings.ofConfiguration c).parallel = false) :
    run.Always c extensions tree (fun _ => SkippedTogether run.log) ∧
    ∃ registry chronicle, rootRegistry extensions = .ok registry ∧
      Chronicles (environment c registry) (Execution.execute tree) { user } chronicle ∧
      run.trace = entriesAll default chronicle ∧ ∀ h ∈ chronicle, h.Everywhere fun _ hs => ClosesStored hs := by
  constructor
  · obtain ⟨registry, v, inside, registered, told, lawful⟩ := fully_lawful_history executed
    have logged : Deed.log default (.visit v inside) = run.log := by
      rw [Run.log, told.trace]
      rfl
    have whole : Deed.log default (.visit v inside) <:+: run.log := logged ▸ List.infix_rfl
    have all := lawful.told default whole
    refine ⟨registry, v, inside, registered, told, (all.strengthen ?_).mono fun both => ⟨both.1.1.toLaw, both.2⟩⟩
    rintro _ _ _ ⟨law, within⟩ below
    exact law.skippedTogether (fun d member => (below d member).mono And.left) within
  · obtain ⟨registry, registered, rfl⟩ := execute_ok executed
    obtain ⟨chronicle, chronicles⟩ :=
      (Recorded.governs (environment c registry)).execute sequential tree { user }
    have trace : ((Execution.execute tree).goes (environment c registry) { user }).2.trace.toList =
        entriesAll default chronicle := chronicles.trace
    exact ⟨registry, chronicle, registered, chronicles, trace, chronicles.releases.2⟩

/-- A class that is disabled, with another in it, and one that cannot be set up. Of the code declared there only that
of a watcher is run, and what it stores is closed. -/
def Blueprint.idle : Blueprint Unit String :=
  let noted {α : Type} (name : String) (value : α) : Method Unit String α :=
    { signature := { name }, body := fun _ => .note name (.done (.ok value)) }
  let closing : Action Unit String Unit := .note "report closed"
  let late : Watcher Unit String :=
    { disabled := fun reason => .note reason
        (.store 0 ⟨[], "report"⟩ (.putResource ⟨"text", .text reason⟩ closing) fun _ => .done ()) }
  let asked : Extension Unit String :=
    { name := "Asked", condition := some (.note "asked" (.done (.ok (.enabled "")))) }
  .node (.engine "engine") [
    .node { Outline.ofClass { name := "Off", constructor := noted "new Off" ⟨"Off", "Off#1"⟩ } with
        extensions := [⟨.disabled "not now", .default⟩, ⟨{ name := "Late", watcher := some late }, .default⟩] } [
      .node (.ofClass {
          name := "Inner", constructor := noted "new Inner" ⟨"Inner", "Inner#1"⟩, beforeEach := [noted "open" ()] }) [
        .node { Outline.ofTest (noted "first" ()) with extensions := [⟨asked, .default⟩] } []]],
    .node (.ofClass {
        name := "Broken", constructor := noted "new Broken" ⟨"Broken", "Broken#1"⟩,
        beforeAll := [noted "set up" ()] }) [
      .node { Outline.ofTest (noted "second" ()) with extensions := [⟨asked, .default⟩] } []]]

def Blueprint.idleNames : List String := ["engine", "Off", "Inner", "first", "Broken", "second", "Broken", "engine"]

theorem skipped_together_sample : ∃ run, execute .empty [] Blueprint.idle.build () = .ok run ∧
    (Settings.ofConfiguration .empty).parallel = false ∧ run.notes = ["not now", "report closed"] ∧
    run.log.map (·.displayName) = Blueprint.idleNames ∧
    run.Always .empty [] Blueprint.idle.build fun _ => SkippedTogether run.log := by
  obtain ⟨run, executed, checked⟩ := Blueprint.executed_of_any
    (r := execute .empty [] Blueprint.idle.build ()) (p := fun run => run.notes == ["not now", "report closed"] &&
      run.log.map (·.displayName) == Blueprint.idleNames) (by decide +kernel)
  rw [Bool.and_eq_true, beq_iff_eq, beq_iff_eq] at checked
  have sequential : (Settings.ofConfiguration .empty).parallel = false := by decide +kernel
  exact ⟨run, executed, sequential, checked.1, checked.2, (skipped_together executed sequential).1⟩

end
end TestEngine

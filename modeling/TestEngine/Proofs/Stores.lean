import TestEngine.Proofs.Bookkeeping
import TestEngine.Proofs.Governing

/-! The stores of a run. Each node that is entered has one of its own. It is closed once, when the node and all below
it have come to their end, and with it each resource that was put into it by whatever code and not removed. -/
namespace TestEngine
variable {σ ν α : Type}

open Execution Happening

theorem Orderly.governs (env : Environment σ ν) : Governs env (fun _ m => Orderly env m) (Concludes env) where
  toRegime := Orderly.regime env
  stepping h apart := h.step apart
  holding _ := .of_local (.steady fun w => .modifyTop w _ (fun _ => rfl) fun _ => rfl)
  shows _ := .of_local (.steady fun w => .modifyTop w _ (fun _ => rfl) fun _ => rfl)
  panicked _ _ _ _ goes := by cases goes
  settled h := settings_bind h

def EventKind.isEntering : EventKind → Bool
  | .started | .skipped _ => true
  | .registered | .finished _ | .entry _ => false

/-- The nodes that a trace tells to be started or skipped. -/
def enteredIn (trace : List (Entry ν)) : List UniqueId :=
  ((eventsOf trace).filter (·.kind.isEntering)).map (·.id)

@[simp] theorem enteredIn_append (trace more : List (Entry ν)) :
    enteredIn (trace ++ more) = enteredIn trace ++ enteredIn more := by simp [enteredIn, eventsOf]

@[simp] theorem enteredIn_step (id : UniqueId) (s : Step) (phase : Phase) (trace : List (Entry ν)) :
    enteredIn (.step id s phase :: trace) = enteredIn trace := rfl

theorem enteredIn_notes (notes : List ν) : enteredIn (notes.map .note) = [] := by
  induction notes with
  | nil => rfl
  | cons n notes ih => exact ih

namespace Happening

mutual
/-- The nodes that are entered, each with a store of its own. -/
def sites : Happening σ ν → List (Site σ ν)
  | .entry _ | .asked _ _ _ | .closed _ _ => []
  | .inside site hs => site :: sitesAll hs
def sitesAll : List (Happening σ ν) → List (Site σ ν)
  | [] => []
  | h :: hs => sites h ++ sitesAll hs
end

/-- What is told of the node itself. -/
def own : Happening σ ν → List UniqueId
  | .entry e => enteredIn [e]
  | .asked _ _ _ | .closed _ _ | .inside _ _ => []

theorem own_routine {hs : List (Happening σ ν)} (h : ∀ h ∈ hs, h.isRoutine = true) : hs.flatMap own = [] := by
  refine List.flatMap_eq_nil_iff.mpr fun x member => ?_
  have routine := h x member
  cases x with
  | asked | closed | inside => rfl
  | entry e =>
    cases e with
    | note | step | locked | unlocked => rfl
    | event e =>
      cases kind : e.kind <;>
        simp_all [isRoutine, Entry.isRoutine, own, enteredIn, eventsOf, Entry.event?, EventKind.isEntering]

end Happening

theorem Notified.own {id : UniqueId} {names : List String} {told : List (Happening σ ν)}
    (h : Notified id names told) : told.flatMap Happening.own = [] := by
  induction h with
  | nil => rfl
  | told local' _ ih =>
    have inside := own_routine fun h member => isRoutine_of_isLocal (local' h member)
    simp only [List.cons_append, List.flatMap_cons, List.flatMap_append, inside, ih]
    rfl

/-- A node is told once to be started or skipped. -/
theorem Concluded.own {s : Site σ ν} {hs : List (Happening σ ν)} (h : Concluded s hs) :
    hs.flatMap Happening.own = [s.descriptor.id] := by
  have parts {as bs : List (Happening σ ν)} (routine : ∀ h ∈ as ++ bs, h.isRoutine = true) :
      as.flatMap Happening.own = [] ∧ bs.flatMap Happening.own = [] :=
    List.append_eq_nil_iff.mp (List.flatMap_append ▸ own_routine routine)
  cases h with
  | started routine same notified _ =>
    rw [same]
    simp only [List.flatMap_append, List.flatMap_cons, parts routine, notified.own]
    rfl
  | skipped routine notified same =>
    rw [same]
    simp only [List.flatMap_append, List.flatMap_cons, parts routine, notified.own]
    rfl

mutual
theorem entered_entries : (h : Happening σ ν) → (id : UniqueId) → h.Everywhere Concluded →
    (enteredIn (entries id h)).Perm (h.own ++ h.sites.map (·.descriptor.id))
  | .entry _, _, _ => by simp [entries, own, sites]
  | .asked _ _ _, _, _ => by simp [entries, own, sites, enteredIn, eventsOf]
  | .closed released user, id, _ => by
    simp only [entries, enteredIn_step, enteredIn_append, enteredIn_notes]
    exact .refl _
  | .inside site hs, _, everywhere => by
    cases everywhere with
    | inside concluded each =>
      have perm := entered_entriesAll hs site.descriptor.id each
      rw [concluded.own] at perm
      exact perm
/-- The nodes told to be started or skipped are those that are entered. -/
theorem entered_entriesAll : (hs : List (Happening σ ν)) → (id : UniqueId) → (∀ h ∈ hs, h.Everywhere Concluded) →
    (enteredIn (entriesAll id hs)).Perm (hs.flatMap own ++ (sitesAll hs).map (·.descriptor.id))
  | [], _, _ => .refl _
  | h :: hs, id, orders => by
    have first := entered_entries h id (orders h (by simp))
    have rest := entered_entriesAll hs id fun h member => orders h (by simp [member])
    simp only [entriesAll, enteredIn_append, sitesAll, List.flatMap_cons, List.map_append]
    refine (first.append rest).trans ?_
    simp only [List.append_assoc]
    exact .append_left _ (List.perm_append_comm_assoc _ _ _)
end

section
variable {c : Configuration} {extensions : List (Declared σ ν)} {tree : TestTree σ ν} {user : σ}
  {run : Run σ ν}

/-- What happens in a run, with what its stores are asked for and when they are closed. -/
structure Run.ChronicledBy (run : Run σ ν) (env : Environment σ ν) (tree : TestTree σ ν) (user : σ)
    (chronicle : List (Happening σ ν)) : Prop where
  chronicles : Chronicles env (Execution.execute tree) { user } chronicle
  trace : run.trace = entriesAll default chronicle
  /-- Nodes that are told to be started or skipped are entered, each with a store of its own, and no others. -/
  entered : (enteredIn run.trace).Perm ((sitesAll chronicle).map (·.descriptor.id))
  /-- No node is begun or ended outside of the nodes that are entered, nor is a store closed. -/
  routine : ∀ h ∈ chronicle, h.isRoutine = true
  concluded : ∀ h ∈ chronicle, h.Everywhere Concluded

/-- In a run on one thread that comes to its end, the store of every node that is entered is closed once: behind those
of the nodes below it and, where the node was started, behind its steps, before its watchers are told and its result
is reported. So each resource that was put into it before, and whose key has not been removed since, is closed once,
the newest first, and the errors of that are part of the result. -/
theorem stores_closed (executed : execute c extensions tree user = .ok run)
    (sequential : (Settings.ofConfiguration c).parallel = false) (ended : run.halt = none) :
    ∃ registry chronicle, rootRegistry extensions = .ok registry ∧
      run.ChronicledBy (environment c registry) tree user chronicle := by
  obtain ⟨registry, registered, rfl⟩ := execute_ok executed
  have outcome : ((Execution.execute tree).goes (environment c registry) { user }).1 = .ok () := by
    cases outcome : ((Execution.execute tree).goes (environment c registry) { user }).1 with
    | ok => rfl
    | error h => simp [outcome] at ended
  have orderly := (Orderly.governs (environment c registry)).execute sequential tree
  obtain ⟨chronicle, chronicles, routine, orders⟩ := orderly { user } () _ (Prod.ext outcome rfl)
  have told : ((Execution.execute tree).goes (environment c registry) { user }).2.trace.toList =
      entriesAll default chronicle := chronicles.trace
  have entered := entered_entriesAll chronicle default orders
  rw [own_routine routine, List.nil_append] at entered
  exact ⟨registry, chronicle, registered, chronicles, told, told ▸ entered, routine, orders⟩

/-- A test that puts resources into its own store and that of the class, and removes one of them; closing another
fails. A second test is disabled, and puts something away when it is told so. -/
def Blueprint.stored : Blueprint Unit String :=
  let key (name : String) : Store.Key := ⟨[], name⟩
  let resource (name : String) (outcome : Except Fault Unit) : Store.Request Unit String :=
    .putResource ⟨"text", .text name⟩ fun user => (outcome, [name ++ " closed"], user)
  let body : Code Unit String Unit :=
    .store 0 (key "file") (resource "file" (.ok ())) fun _ =>
    .store 1 (key "pool") (resource "pool" (.ok ())) fun _ =>
    .store 0 (key "temp") (resource "temp" (.ok ())) fun _ =>
    .store 0 (key "lock") (resource "lock" (.error (.error (.failure "stuck")))) fun _ =>
    .store 0 (key "temp") .remove fun _ => .done (.ok ())
  let late : Watcher Unit String :=
    { disabled := fun _ => .store 0 (key "report") (resource "report" (.ok ())) fun _ => .done () }
  let method {α : Type} (name : String) (body : Code Unit String α) : Method Unit String α :=
    { signature := { name }, body := fun _ => body }
  .node (.engine "engine") [
    .node (.ofClass { name := "Files", constructor := method "Files" (.done (.ok ⟨"Files", "Files#1"⟩)) }) [
      .node (.ofTest (method "opens" body)) [],
      .node { Outline.ofTest (method "waits" (.done (.ok ()))) with
        extensions := [⟨.disabled "", .default⟩, ⟨{ name := "Late", watcher := some late }, .default⟩] } []]]

theorem stores_closed_sample : ∃ run, execute .empty [] Blueprint.stored.build () = .ok run ∧
    (Settings.ofConfiguration .empty).parallel = false ∧ run.halt = none ∧
    run.notes = ["lock closed", "file closed", "report closed", "pool closed"] ∧
    ∃ registry chronicle, rootRegistry [] = .ok registry ∧
      run.ChronicledBy (environment .empty registry) Blueprint.stored.build () chronicle := by
  obtain ⟨run, executed, checked⟩ := Blueprint.executed_of_any
    (r := execute .empty [] Blueprint.stored.build ()) (p := fun run => run.halt.isNone &&
      run.notes == ["lock closed", "file closed", "report closed", "pool closed"]) (by decide +kernel)
  rw [Bool.and_eq_true, Option.isNone_iff_eq_none, beq_iff_eq] at checked
  have sequential : (Settings.ofConfiguration .empty).parallel = false := by decide +kernel
  exact ⟨run, executed, sequential, checked.1, checked.2, stores_closed executed sequential checked.1⟩

end
end TestEngine

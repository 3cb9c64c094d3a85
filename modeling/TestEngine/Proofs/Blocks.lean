import Mathlib.Data.List.Count
import TestEngine.Event
import TestEngine.Proofs.Identifiers

/-! Logs of nested blocks. A node that is executed has its blocks between its start and its result; one
that is skipped has a single event. Where no node has two blocks such a log is well nested. -/
namespace TestEngine

namespace EventKind

def isRegistered : EventKind → Bool
  | .registered => true
  | _ => false

def isStarted : EventKind → Bool
  | .started => true
  | _ => false

def isSkipped : EventKind → Bool
  | .skipped _ => true
  | _ => false

def isFinished : EventKind → Bool
  | .finished _ => true
  | _ => false

/-- Such an event is the first of a node, apart from its announcement. -/
def opens (k : EventKind) : Bool := k.isStarted || k.isSkipped

end EventKind

open EventKind

/-- The identifiers that events of some kinds tell of, in their order. -/
def toldOf (p : EventKind → Bool) (log : List Event) : List UniqueId := (log.filter (p ·.kind)).map (·.id)

/-- A node may be announced, but not more than that. -/
def Announces (node : Node) (log : List Event) : Prop := log = [] ∨ log = [.of node .registered]

/-- Complete blocks of nodes strictly below another. -/
inductive Blocks : UniqueId → List Event → Prop where
  | nil : Blocks above []
  | skipped : node.id.Below above → Announces node first → Blocks above rest →
      Blocks above (first ++ .of node (.skipped reason) :: rest)
  | executed : node.id.Below above → Announces node first → Blocks node.id middle → Blocks above rest →
      Blocks above (first ++ .of node .started :: (middle ++ .of node (.finished r) :: rest))

/-- Behind the event that starts a node there are blocks of nodes below, and then its result. -/
def Closed (log : List Event) (s : Event) : Prop :=
  ∃ before inner f after, log = before ++ s :: inner ++ f :: after ∧ f.id = s.id ∧ f.kind.isFinished ∧
    Blocks s.id inner

/-- Directly behind the event that announces a node it is started or skipped. -/
def Opened (log : List Event) (g : Event) : Prop :=
  ∃ before e after, log = before ++ g :: e :: after ∧ e.id = g.id ∧ e.kind.opens

def Sited (log : List Event) (e : Event) : Prop :=
  (e.kind.isStarted → Closed log e) ∧ (e.kind.isRegistered → Opened log e)

/-- What listeners are told is well nested: each node is either started once and finished once, with
complete blocks of nodes below in between, or it is skipped once; and it is announced at most once,
directly before that. -/
structure WellNested (log : List Event) : Prop where
  started : ∀ s ∈ log, s.kind.isStarted → (toldOf isStarted log).count s.id = 1 ∧
    (toldOf isFinished log).count s.id = 1 ∧ Closed log s
  finished : ∀ f ∈ log, f.kind.isFinished → ∃ s ∈ log, s.kind.isStarted ∧ s.id = f.id
  skipped : ∀ s ∈ log, s.kind.isSkipped → (toldOf isSkipped log).count s.id = 1 ∧
    s.id ∉ toldOf isStarted log ∧ s.id ∉ toldOf isFinished log
  registered : ∀ g ∈ log, g.kind.isRegistered → (toldOf isRegistered log).count g.id = 1 ∧ Opened log g

section
variable {p : EventKind → Bool} {xs ys log : List Event} {e g s : Event} {id above : UniqueId} {node : Node}

@[simp] theorem toldOf_nil : toldOf p [] = [] := rfl

@[simp] theorem toldOf_append : toldOf p (xs ++ ys) = toldOf p xs ++ toldOf p ys := by simp [toldOf]

@[simp] theorem toldOf_cons : toldOf p (e :: xs) = if p e.kind then e.id :: toldOf p xs else toldOf p xs := by
  unfold toldOf
  rw [List.filter_cons]
  split <;> rfl

theorem mem_toldOf : id ∈ toldOf p log ↔ ∃ e ∈ log, p e.kind ∧ e.id = id := by simp [toldOf, and_assoc]

theorem count_opens : (toldOf opens log).count id =
    (toldOf isStarted log).count id + (toldOf isSkipped log).count id := by
  induction log with
  | nil => rfl
  | cons e rest ih =>
    cases kind : e.kind <;>
      simp [kind, opens, isStarted, isSkipped, List.count_cons, ih] <;> omega

namespace Announces

theorem toldOf (h : Announces node xs) (other : p .registered = false) : toldOf p xs = [] := by
  rcases h with rfl | rfl <;> simp [Event.of, other]

end Announces

theorem Sited.within (h : Sited xs e) (before after : List Event) (same : log = before ++ xs ++ after) :
    Sited log e := by
  refine ⟨fun started => ?_, fun registered => ?_⟩
  · obtain ⟨pre, inner, f, post, rfl, result, kind, blocks⟩ := h.1 started
    exact ⟨before ++ pre, inner, f, post ++ after, by simp [same], result, kind, blocks⟩
  · obtain ⟨pre, next, post, rfl, first, opens⟩ := h.2 registered
    exact ⟨before ++ pre, next, post ++ after, by simp [same], first, opens⟩

namespace Blocks

theorem append (first : Blocks above xs) (second : Blocks above ys) : Blocks above (xs ++ ys) := by
  induction first with
  | nil => exact second
  | skipped below announced _ ih =>
    rw [List.append_assoc, List.cons_append]
    exact .skipped below announced (ih second)
  | executed below announced inner _ _ ih =>
    rw [List.append_assoc, List.cons_append, List.append_assoc, List.cons_append]
    exact .executed below announced inner (ih second)

theorem count_finished (h : Blocks above log) (id : UniqueId) :
    (toldOf isFinished log).count id = (toldOf isStarted log).count id := by
  induction h with
  | nil => rfl
  | skipped _ announced _ ih =>
    rw [toldOf_append, toldOf_append, announced.toldOf rfl, announced.toldOf rfl]
    simpa [Event.of, isFinished, isStarted] using ih
  | executed _ announced _ _ inner rest =>
    rw [toldOf_append, toldOf_append, announced.toldOf rfl, announced.toldOf rfl]
    simp [Event.of, isFinished, isStarted, List.count_cons, inner, rest]
    omega

theorem registered_sublist (h : Blocks above log) : (toldOf isRegistered log).Sublist (toldOf opens log) := by
  have announcement {node : Node} {first : List Event} (h : Announces node first) :
      (toldOf isRegistered first).Sublist [node.id] := by
    rcases h with rfl | rfl <;> simp [Event.of, isRegistered]
  induction h with
  | nil => exact .refl _
  | skipped _ announced _ ih =>
    have here := (announcement announced).append ih
    rw [toldOf_append, toldOf_append, announced.toldOf (p := opens) rfl]
    simpa [Event.of, isRegistered, opens, isStarted, isSkipped] using here
  | executed _ announced _ _ inner rest =>
    have here := (announcement announced).append (inner.append rest)
    rw [toldOf_append, toldOf_append, announced.toldOf (p := opens) rfl]
    simpa [Event.of, isRegistered, opens, isStarted, isSkipped] using here

theorem sited (h : Blocks above log) : ∀ e ∈ log, Sited log e := by
  have announcement {node : Node} {first rest : List Event} {e : Event} {k : EventKind}
      (h : Announces node first) (member : e ∈ first) (opens : k.opens) :
      Sited (first ++ .of node k :: rest) e := by
    rcases h with rfl | rfl
    · contradiction
    · cases List.mem_singleton.mp member
      exact ⟨nofun, fun _ => ⟨[], .of node k, rest, rfl, rfl, opens⟩⟩
  induction h with
  | nil => simp
  | @skipped node first above rest reason _ announced _ ih =>
    intro e member
    rcases List.mem_append.mp member with among | later
    · exact announcement announced among rfl
    · rcases List.mem_cons.mp later with rfl | later
      · exact ⟨nofun, nofun⟩
      · exact (ih e later).within (first ++ [.of node (.skipped reason)]) [] (by simp)
  | @executed node first inner above rest r _ announced blocks _ ihInner ihRest =>
    intro e member
    rcases List.mem_append.mp member with among | later
    · exact announcement announced among rfl
    · rcases List.mem_cons.mp later with rfl | later
      · exact ⟨fun _ => ⟨first, inner, .of node (.finished r), rest, by simp, rfl, rfl, blocks⟩, nofun⟩
      · rcases List.mem_append.mp later with among | later
        · exact (ihInner e among).within (first ++ [.of node .started])
            (.of node (.finished r) :: rest) (by simp)
        · rcases List.mem_cons.mp later with rfl | later
          · exact ⟨nofun, nofun⟩
          · exact (ihRest e later).within
              (first ++ .of node .started :: (inner ++ [.of node (.finished r)])) [] (by simp)

/-- Blocks are well nested if no node has two of them. -/
theorem wellNested (h : Blocks above log) (distinct : (toldOf opens log).Nodup) : WellNested log := by
  have once (id : UniqueId) := List.nodup_iff_count_le_one.mp distinct id
  have among {p : EventKind → Bool} {e : Event} (member : e ∈ log) (kind : p e.kind) :
      0 < (toldOf p log).count e.id := List.count_pos_iff.mpr (mem_toldOf.mpr ⟨e, member, kind, rfl⟩)
  constructor
  · intro s member started
    have atMost := once s.id
    have atLeast := among member started
    rw [count_opens] at atMost
    have same := h.count_finished s.id
    exact ⟨by omega, by omega, (h.sited s member).1 started⟩
  · intro f member finished
    have results := among member finished
    rw [h.count_finished] at results
    exact mem_toldOf.mp (List.count_pos_iff.mp results)
  · intro s member skipped
    have atMost := once s.id
    have atLeast := among member skipped
    rw [count_opens] at atMost
    have same := h.count_finished s.id
    exact ⟨by omega, List.count_eq_zero.mp (by omega), List.count_eq_zero.mp (by omega)⟩
  · intro g member registered
    have atMost := Nat.le_trans (h.registered_sublist.count_le g.id) (once g.id)
    have atLeast := among member registered
    exact ⟨by omega, (h.sited g member).2 registered⟩

end Blocks
end
end TestEngine

import TestEngine.Proofs.StoreTrees

/-! A count beside the state of the user. Code that is made to add to it does otherwise what it did before: of trees of
stores all calls end as they do without it. -/
namespace TestEngine

namespace Action
variable {σ ν α β : Type}

/-- The action, on a state with a count beside it to which it adds. -/
def counting (n : Nat) (action : Action σ ν α) : Action (σ × Nat) ν α := fun s =>
  let (outcome, notes, user) := action s.1
  (outcome, notes, (user, s.2 + n))

/-- An action does what another does, but for a count. -/
def Counts (counted : Action (σ × Nat) ν α) (action : Action σ ν α) : Prop :=
  ∀ s, (counted s).1 = (action s.1).1 ∧ (counted s).2.1 = (action s.1).2.1 ∧ (counted s).2.2.1 = (action s.1).2.2

theorem counts_counting (n : Nat) (action : Action σ ν α) : Counts (action.counting n) action :=
  fun _ => ⟨rfl, rfl, rfl⟩

theorem Counts.bind {counted : Action (σ × Nat) ν α} {action : Action σ ν α} {next' : α → Action (σ × Nat) ν β}
    {next : α → Action σ ν β} (first : Counts counted action) (second : ∀ a, Counts (next' a) (next a)) :
    Counts (counted.bind next') (action.bind next) := by
  intro s
  obtain ⟨outcome, notes, user⟩ := first s
  rcases ran' : counted s with ⟨outcome', notes', s'⟩
  rcases ran : action s.1 with ⟨fault | a, told, left⟩ <;> rw [ran', ran] at outcome notes user <;>
    simp only at outcome notes user <;> subst outcome notes
  · simp only [Action.bind, ran', ran, user, and_self]
  · have rest := second a s'
    rw [user] at rest
    simp only [Action.bind, ran', ran, rest, and_self]

theorem Counts.gather {counted : List (Action (σ × Nat) ν Unit)} {actions : List (Action σ ν Unit)}
    (each : List.Forall₂ Counts counted actions) (c : Collector) : Counts (gather c counted) (gather c actions) := by
  induction each generalizing c with
  | nil => exact fun _ => ⟨rfl, rfl, rfl⟩
  | @cons a' a _ _ first _ ih =>
    intro s
    obtain ⟨outcome, notes, user⟩ := first s
    have rest := ih (c.record (a s.1).1) (a' s).2.2
    rw [user] at rest
    simp only [Action.gather, outcome, notes, rest, and_self]

theorem Counts.all {counted : List (Action (σ × Nat) ν Unit)} {actions : List (Action σ ν Unit)}
    (each : List.Forall₂ Counts counted actions) : Counts (all counted) (all actions) := by
  refine (Counts.gather each .empty).bind fun c => ?_
  cases c.primary <;> exact fun _ => ⟨rfl, rfl, rfl⟩

end Action

open Store

namespace Store
variable {σ ν : Type}

/-- The same request, where what it computes adds to a count, or closing what it puts into the store. -/
def Request.counting (n : Nat) : Request σ ν → Request (σ × Nat) ν
  | .get typeName => .get typeName
  | .put v => .put v
  | .putResource v close => .putResource v (close.counting n)
  | .remove => .remove
  | .getOrCompute typeName compute => .getOrCompute typeName (compute.counting n)

/-- A resource is as another, but for a count that closing it may add to. -/
def Resource.Counts (r' : Resource (σ × Nat) ν) (r : Resource σ ν) : Prop := r'.1 = r.1 ∧ Action.Counts r'.2 r.2

structure Counts (s' : Store (σ × Nat) ν) (s : Store σ ν) : Prop where
  values : s'.values = s.values
  resources : List.Forall₂ Resource.Counts s'.resources s.resources

namespace Counts
variable {s' : Store (σ × Nat) ν} {s : Store σ ν}

theorem put (h : Counts s' s) (key : Key) (v : Stored) : Counts (s'.put key v) (s.put key v) :=
  ⟨congrArg (write key v) h.values, h.resources⟩

theorem putResource (h : Counts s' s) (key : Key) (v : Stored) (close : Action σ ν Unit) (n : Nat) :
    Counts (s'.putResource key v (close.counting n)) (s.putResource key v close) := by
  have new : Resource.Counts (key, close.counting n) (key, close) := ⟨rfl, close.counts_counting n⟩
  exact ⟨congrArg (write key v) h.values, List.rel_append h.resources (.cons new .nil)⟩

theorem remove (h : Counts s' s) (key : Key) : Counts (s'.remove key) (s.remove key) := by
  refine ⟨by simp only [Store.remove, h.values], ?_⟩
  have each := h.resources
  unfold Store.remove
  generalize s'.resources = rs', s.resources = rs at each
  induction each with
  | nil => exact .nil
  | @cons r' r _ _ first _ ih =>
    by_cases here : r.1 = key
    · simpa [first.1, here] using ih
    · simp only [List.filter_cons, first.1, ne_eq, here, not_false_eq_true, decide_true, if_true]
      exact .cons first ih

theorem release (h : Counts s' s) : Action.Counts s'.release s.release := by
  refine Action.Counts.all ?_
  rw [List.forall₂_map_left_iff, List.forall₂_map_right_iff]
  exact (List.rel_reverse h.resources).imp fun _ _ => And.right

end Counts
end Store

namespace StoreTree
variable {κ σ ν : Type}

def Call.counting (n : Nat) (c : Call κ σ ν) : Call κ (σ × Nat) ν where
  place := c.place
  operation :=
    match c.operation with
    | .ask key request => .ask key (request.counting n)
    | .close => .close

/-- A tree is as another, but for a count beside the state of the user. -/
structure Counts (t' : StoreTree κ (σ × Nat) ν) (t : StoreTree κ σ ν) : Prop where
  stores : ∀ p, (t'.stores p).Counts (t.stores p)
  user : t'.user.1 = t.user

theorem Counts.lookup {t' : StoreTree κ (σ × Nat) ν} {t : StoreTree κ σ ν} (h : Counts t' t) (p : List κ) (key : Key) :
    lookup key (t'.stores p :: t'.above p) = lookup key (t.stores p :: t.above p) := by
  rw [chain_eq, chain_eq, lookup_map, lookup_map]
  exact congrArg p.tails.findSome? (funext fun q => by rw [(h.stores q).values])

variable [DecidableEq κ]

theorem Counts.update {t' : StoreTree κ (σ × Nat) ν} {t : StoreTree κ σ ν} (h : Counts t' t) {p : List κ}
    {s' : Store (σ × Nat) ν} {s : Store σ ν} (changed : s'.Counts s) {user' : σ × Nat} {user : σ}
    (left : user'.1 = user) : Counts (κ := κ) { stores := Function.update t'.stores p s', user := user' }
      { stores := Function.update t.stores p s, user } := by
  refine ⟨fun q => ?_, left⟩
  by_cases here : q = p
  · subst q
    simpa only [Function.update_self] using changed
  · simpa only [Function.update_of_ne here] using h.stores q

/-- Each call ends as it does without a count, and leaves the same behind. -/
theorem Counts.perform {t' : StoreTree κ (σ × Nat) ν} {t : StoreTree κ σ ν} (h : Counts t' t) (call : Call κ σ ν)
    (n : Nat) : (t'.perform (call.counting n)).1 = (t.perform call).1 ∧
      Counts (t'.perform (call.counting n)).2.2 (t.perform call).2.2 := by
  obtain ⟨p, operation⟩ := call
  have here := h.stores p
  cases operation with
  | close =>
    obtain ⟨outcome, _, left⟩ := here.release t'.user
    rw [h.user] at outcome left
    have closed : (t'.stores p).close.Counts (t.stores p).close := ⟨here.values, .nil⟩
    exact ⟨congrArg (Except.map fun _ => none) outcome, h.update closed left⟩
  | ask key request =>
    have own : (t'.stores p).values.lookup key = (t.stores p).values.lookup key := by rw [here.values]
    cases request with
    | get typeName =>
      have counted : t'.perform (Call.counting n ⟨p, .ask key (.get typeName)⟩) = _ := perform_get t' p key typeName
      rw [counted, perform_get, h.lookup]
      exact ⟨rfl, h⟩
    | put v => exact ⟨congrArg Except.ok own, h.update (here.put key v) h.user⟩
    | putResource v close => exact ⟨rfl, h.update (here.putResource key v close n) h.user⟩
    | remove => exact ⟨congrArg Except.ok own, h.update (here.remove key) h.user⟩
    | getOrCompute typeName compute =>
      have found := h.lookup p key
      cases visible : Store.lookup key (t.stores p :: t.above p) with
      | some v =>
        have counted : t'.perform (Call.counting n ⟨p, .ask key (.getOrCompute typeName compute)⟩) = _ :=
          perform_found (found.trans visible) _ _
        rw [counted, perform_found visible]
        exact ⟨rfl, h⟩
      | none =>
        have counted : t'.perform (Call.counting n ⟨p, .ask key (.getOrCompute typeName compute)⟩) = _ :=
          perform_missing (found.trans visible) _ _
        rw [counted, perform_missing visible]
        simp only [Action.counting, h.user, true_and]
        cases (compute t.user).1 with
        | error fault => exact ⟨h.stores, rfl⟩
        | ok value => exact h.update (here.put key _) rfl

/-- So does each of several calls, whatever they add to the count. -/
theorem Counts.later {c' : Course κ (σ × Nat) ν} {c : Course κ σ ν} (tree : Counts c'.tree c.tree)
    (history : c'.history.map (·.2) = c.history.map (·.2)) {calls' : List (Call κ (σ × Nat) ν)}
    {calls : List (Call κ σ ν)} (each : List.Forall₂ (fun call' call => ∃ n, call' = call.counting n) calls' calls) :
    Counts (calls'.foldl Course.proceed c').tree (calls.foldl Course.proceed c).tree ∧
      (calls'.foldl Course.proceed c').history.map (·.2) = (calls.foldl Course.proceed c).history.map (·.2) := by
  induction each generalizing c' c with
  | nil => exact ⟨tree, history⟩
  | @cons _ call _ _ first _ ih =>
    obtain ⟨n, rfl⟩ := first
    obtain ⟨outcome, behind⟩ := tree.perform call n
    refine ih behind ?_
    simp only [Course.proceed, List.map_cons, outcome, history]

theorem course_counts (user : σ) {calls' : List (Call κ (σ × Nat) ν)} {calls : List (Call κ σ ν)}
    (each : List.Forall₂ (fun call' call => ∃ n, call' = call.counting n) calls' calls) :
    Counts (course (user, 0) calls').tree (course user calls).tree ∧
      (course (user, 0) calls').history.map (·.2) = (course user calls).history.map (·.2) :=
  Counts.later ⟨fun _ => ⟨rfl, .nil⟩, rfl⟩ rfl each

end StoreTree
end TestEngine

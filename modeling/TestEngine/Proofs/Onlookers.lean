import TestEngine.Proofs.Diverging
import TestEngine.Proofs.Positions

/-! Onlookers: extensions that are told how tests end, and do nothing but log. Registries and trees with more of them
hold all else as it was, and in the same order. -/
namespace TestEngine
variable {σ ν α β : Type}

open Execution

/-- No method of the watcher does more than log, however it ends. -/
structure Watcher.OnlyLogs (w : Watcher σ ν) : Prop where
  disabled : ∀ reason, (w.disabled reason).OnlyLogs
  successful : w.successful.OnlyLogs
  aborted : ∀ e, (w.aborted e).OnlyLogs
  failed : ∀ e, (w.failed e).OnlyLogs

/-- An extension that has no capability but that of a watcher, and only logs. -/
structure Extension.Onlooker (e : Extension σ ν) : Prop where
  only : ∀ capability, capability ≠ .watcher → e.has capability = false
  logs : ∀ w ∈ e.watcher, w.OnlyLogs

structure Declared.Onlooker (x : Declared σ ν) : Prop where
  extension : x.extension.Onlooker
  position : x.position = .default

/-- The second list is the first one with further elements among its own, all of them `P`. -/
inductive Interspersed (P : α → Prop) : List α → List α → Prop where
  | nil : Interspersed P [] []
  | kept (x : α) {xs ys : List α} (others : Interspersed P xs ys) : Interspersed P (x :: xs) (x :: ys)
  | further {y : α} (added : P y) {xs ys : List α} (others : Interspersed P xs ys) : Interspersed P xs (y :: ys)

namespace Interspersed
variable {P : α → Prop} {xs ys xs' ys' : List α}

theorem refl (xs : List α) : Interspersed P xs xs := by
  induction xs with
  | nil => exact .nil
  | cons x xs ih => exact .kept x ih

theorem append (first : Interspersed P xs ys) (second : Interspersed P xs' ys') :
    Interspersed P (xs ++ xs') (ys ++ ys') := by
  induction first with
  | nil => exact second
  | kept x _ ih => exact .kept x ih
  | further added _ ih => exact .further added ih

theorem filter (h : Interspersed P xs ys) (p : α → Bool) : Interspersed P (xs.filter p) (ys.filter p) := by
  induction h with
  | nil => exact .nil
  | kept x _ ih =>
    rw [List.filter_cons, List.filter_cons]
    split
    · exact .kept x ih
    · exact ih
  | further added _ ih =>
    rw [List.filter_cons]
    split
    · exact .further added ih
    · exact ih

theorem map {Q : β → Prop} {f : α → β} (h : Interspersed P xs ys) (kept : ∀ y, P y → Q (f y)) :
    Interspersed Q (xs.map f) (ys.map f) := by
  induction h with
  | nil => exact .nil
  | kept x _ ih => exact .kept (f x) ih
  | further added _ ih => exact .further (kept _ added) ih

/-- What none of the further elements is stays as it is. -/
theorem filter_eq (h : Interspersed P xs ys) {p : α → Bool} (others : ∀ y, P y → p y = false) :
    ys.filter p = xs.filter p := by
  induction h with
  | nil => rfl
  | kept x _ ih => rw [List.filter_cons, List.filter_cons, ih]
  | further added _ ih => rw [List.filter_cons_of_neg (by simp [others _ added]), ih]

theorem find?_eq (h : Interspersed P xs ys) {p : α → Bool} (others : ∀ y, P y → p y = false) :
    ys.find? p = xs.find? p := by
  rw [← List.head?_filter, ← List.head?_filter, h.filter_eq others]

end Interspersed

structure Registration.Onlooker (x : Registration (Extension σ ν)) : Prop where
  extension : x.extension.Onlooker
  position : x.position = .default

structure Layer.Attended (l l' : Layer (Extension σ ν)) : Prop where
  scope : l'.scope = l.scope
  registrations : Interspersed Registration.Onlooker l.registrations l'.registrations

/-- The second registry is the first one with onlookers in its layers. -/
structure Registry.Attended (r r' : Registry (Extension σ ν)) : Prop where
  own : r.own.Attended r'.own
  above : List.Forall₂ Layer.Attended r.above r'.above

namespace Registry
variable {r r' : Registry (Extension σ ν)}

theorem registrations_attended {ls ls' : List (Layer (Extension σ ν))} (h : List.Forall₂ Layer.Attended ls ls') :
    Interspersed Registration.Onlooker (ls.flatMap (·.registrations)) (ls'.flatMap (·.registrations)) := by
  induction h with
  | nil => exact .nil
  | cons here _ ih => exact here.registrations.append ih

namespace Attended

theorem refl (r : Registry (Extension σ ν)) : r.Attended r :=
  ⟨⟨rfl, .refl _⟩, List.forall₂_same.mpr fun _ _ => ⟨rfl, .refl _⟩⟩

theorem child (h : r.Attended r') (scope : Scope) : (r.child scope).Attended (r'.child scope) :=
  ⟨⟨rfl, .nil⟩, .cons h.own h.above⟩

theorem chain (h : r.Attended r') : Interspersed Registration.Onlooker r.chain r'.chain :=
  registrations_attended (List.rel_reverse (.cons h.own h.above))

/-- No other capability has anything to do with onlookers. -/
theorem supporting_eq (h : r.Attended r') {capability : Capability} (other : capability ≠ .watcher) :
    r'.supporting capability = r.supporting capability :=
  h.chain.filter_eq fun _ added => added.extension.only capability other

theorem extensions_eq (h : r.Attended r') {capability : Capability} (other : capability ≠ .watcher) :
    r'.extensions capability = r.extensions capability := by
  unfold Registry.extensions inward
  rw [h.supporting_eq other]

theorem watchers (h : r.Attended r') :
    Interspersed Extension.Onlooker (r.extensions .watcher) (r'.extensions .watcher) := by
  have found : Interspersed Registration.Onlooker (r.supporting .watcher) (r'.supporting .watcher) := h.chain.filter _
  exact (((found.filter _).append (found.filter _)).append (found.filter _)).map fun _ added => added.extension

/-- Extreme positions are claimed by the same registrations. -/
theorem conflict?_eq (h : r.Attended r') (e : Extension σ ν) (position : Position) :
    r'.conflict? e position = r.conflict? e position := by
  unfold conflict?
  split
  · rfl
  · rename_i extreme
    have claim (capability : Capability) : r'.claim? capability position = r.claim? capability position := by
      refine (registrations_attended (.cons h.own h.above)).find?_eq fun y added => ?_
      have plain : (y.position == position) = false := by
        rw [added.position]
        exact beq_false_of_ne (Ne.symm extreme)
      simp [plain]
    simp only [claim]

theorem register (h : r.Attended r') (e : Extension σ ν) (position : Position) :
    Agree Attended (r.register e position) (r'.register e position) := by
  unfold Registry.register
  rw [h.conflict?_eq]
  split
  · exact .error _
  · refine .ok ⟨⟨h.own.scope, ?_⟩, h.above⟩
    rw [h.own.scope]
    exact h.own.registrations.append (.refl _)

/-- An onlooker is registered wherever it is declared. -/
theorem further (h : r.Attended r') {x : Declared σ ν} (onlooker : x.Onlooker) :
    ∃ s, r'.register x.extension x.position = .ok s ∧ r.Attended s := by
  have unclaimed : r'.conflict? x.extension x.position = none := if_pos onlooker.position
  unfold Registry.register
  rw [unclaimed]
  refine ⟨_, rfl, ⟨h.own.scope, ?_⟩, h.above⟩
  have last : Interspersed Registration.Onlooker []
      [⟨x.extension, x.position, r'.own.scope⟩] := .further ⟨onlooker.extension, onlooker.position⟩ .nil
  simpa using h.own.registrations.append last

theorem registerAll (h : r.Attended r') {ds ds' : List (Declared σ ν)}
    (declared : Interspersed Declared.Onlooker ds ds') :
    Agree Attended (Execution.registerAll r ds) (Execution.registerAll r' ds') := by
  induction declared generalizing r r' with
  | nil => exact .ok h
  | kept x _ ih =>
    have agree := h.register x.extension x.position
    unfold Execution.registerAll
    generalize r.register x.extension x.position = made at agree ⊢
    generalize r'.register x.extension x.position = made' at agree ⊢
    cases agree with
    | ok related => exact ih related
    | error e => exact .error e
  | further added _ ih =>
    obtain ⟨s, registered, related⟩ := h.further added
    rw [Execution.registerAll, registered]
    exact ih related

end Attended
end Registry

theorem rootRegistry_attended {ds ds' : List (Declared σ ν)} (declared : Interspersed Declared.Onlooker ds ds') :
    Agree Registry.Attended (rootRegistry ds) (rootRegistry ds') :=
  (Registry.Attended.refl _).registerAll ((Interspersed.refl _).append declared)

/-- The second tree is the first one with onlookers among the extensions of its nodes. -/
inductive TestTree.Attended : TestTree σ ν → TestTree σ ν → Prop where
  | node (d : Descriptor σ ν) {extensions : List (Declared σ ν)}
      (own : Interspersed Declared.Onlooker d.extensions extensions) {cs cs' : List (TestTree σ ν)}
      (below : List.Forall₂ TestTree.Attended cs cs') : Attended (.node d cs) (.node { d with extensions } cs')

namespace TestTree

/-- The roots differ in their extensions at most. -/
theorem Attended.descriptor {t t' : TestTree σ ν} (h : t.Attended t') :
    ∃ extensions, t'.descriptor = { t.descriptor with extensions } := by
  cases h with
  | node d own below => exact ⟨_, rfl⟩

theorem Attended.locks (t : TestTree σ ν) :
    ∀ t', t.Attended t' → t'.preorder.flatMap (·.locks) = t.preorder.flatMap (·.locks) := by
  induction t using TestTree.induct with
  | node d cs ih =>
    intro t' h
    cases h with
    | node _ own below =>
      have each := (List.forall₂_and_left _ _).mpr ⟨ih, below⟩
      rw [preorder, preorder, List.flatMap_cons, List.flatMap_cons]
      congr 1
      clear ih below own
      induction each with
      | nil => rfl
      | cons here _ rest =>
        rw [preorderAll, preorderAll, List.flatMap_append, List.flatMap_append, here.1 _ here.2, rest]

theorem Attended.check (t : TestTree σ ν) : ∀ t', t.Attended t' → ∀ seen, check seen t' = check seen t := by
  induction t using TestTree.induct with
  | node d cs ih =>
    intro t' h seen
    cases h with
    | @node _ extensions own _ cs' below =>
      have each := (List.forall₂_and_left _ _).mpr ⟨ih, below⟩
      clear ih below own
      have all (parent : UniqueId) (seen : List UniqueId) : checkAll parent seen cs' = checkAll parent seen cs := by
        induction each generalizing seen with
        | nil => rfl
        | cons here _ rest =>
          obtain ⟨extensions, same⟩ := here.2.descriptor
          rw [checkAll, checkAll, same, here.1 _ here.2]
          simp only [rest]
      rw [TestTree.check, TestTree.check, all]

theorem Attended.validate {t t' : TestTree σ ν} (h : t.Attended t') : t'.validate = t.validate := by
  unfold TestTree.validate
  rw [check t t' h]

end TestTree

end TestEngine

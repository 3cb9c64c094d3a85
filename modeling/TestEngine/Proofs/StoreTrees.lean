import Mathlib.Data.List.Infix
import Mathlib.Data.List.Induction
import TestEngine.Proofs.Chronicles

/-! Trees of stores. Whatever is asked of the stores of a tree, and in whatever order, a lookup finds what was last
stored under the key, and not removed since, in the nearest store on the way up to the root. -/
namespace TestEngine

namespace Store
variable {σ ν : Type}

/-- What is under the key of a request behind it, where `found` is what a lookup found and `own` was the store's own.
A value that is computed is stored if none was found. -/
def Request.leaves (found own : Option Stored) (outcome : Except Fault (Option Stored)) :
    Request σ ν → Option Stored
  | .put v | .putResource v _ => some v
  | .remove => none
  | .get _ => own
  | .getOrCompute _ _ =>
    match found, outcome with
    | none, .ok computed => computed
    | _, _ => own

theorem lookup_entry (k first : Key) (v : Stored) (rest : List (Key × Stored)) :
    ((first, v) :: rest).lookup k = if k = first then some v else rest.lookup k := by
  by_cases same : k = first
  · simp [same]
  · have other : (k == first) = false := by simpa using same
    simp [List.lookup_cons, other, same]

theorem lookup_write (key k : Key) (v : Stored) (values : List (Key × Stored)) :
    (write key v values).lookup k = if k = key then some v else values.lookup k := by
  induction values with
  | nil => simp [write, lookup_entry]
  | cons entry rest ih =>
    obtain ⟨first, old⟩ := entry
    unfold write
    by_cases here : first = key
    · subst first
      by_cases same : k = key <;> simp [lookup_entry, same]
    · by_cases same : k = first
      · simp [here, same]
      · simp [lookup_entry, here, same, ih]

theorem lookup_remove (key k : Key) (values : List (Key × Stored)) :
    (values.filter (·.1 ≠ key)).lookup k = if k = key then none else values.lookup k := by
  induction values with
  | nil => simp
  | cons entry rest ih =>
    obtain ⟨first, old⟩ := entry
    by_cases here : first = key
    · subst first
      by_cases same : k = key
      · simpa [same] using ih
      · simpa [lookup_entry, same] using ih
    · by_cases same : k = first
      · simp [here, same]
      · simpa [lookup_entry, here, same] using ih

theorem behind_looked (s : Store σ ν) (outcome : Except Fault (Option Stored)) :
    s.behind (outcome.map (·, s)) = s := by
  cases outcome <;> rfl

/-- A request bears on its own key alone. -/
theorem values_behind (above : List (Store σ ν)) (s : Store σ ν) (key k : Key) (request : Request σ ν) (user : σ) :
    let outcome := (s.perform above key request user).1
    (s.behind outcome).values.lookup k = if k = key then
      request.leaves (lookup key (s :: above)) (s.values.lookup key) (outcome.map (·.1))
    else s.values.lookup k := by
  have unchanged : s.values.lookup k = if k = key then s.values.lookup key else s.values.lookup k := by
    split
    · rename_i same
      rw [same]
    · rfl
  cases request with
  | get typeName =>
    simp only [perform, behind_looked]
    exact unchanged
  | put v => exact lookup_write key k v s.values
  | putResource v close => exact lookup_write key k v s.values
  | remove => exact lookup_remove key k s.values
  | getOrCompute typeName compute =>
    unfold perform
    cases lookup key (s :: above) with
    | some v =>
      simp only [behind_looked]
      exact unchanged
    | none =>
      rcases computed : compute user with ⟨fault | value, notes, user'⟩
      · simp only [Action.bind, computed]
        exact unchanged
      · simp only [Action.bind, computed]
        exact lookup_write key k ⟨typeName, value⟩ s.values

end Store

open Store

/-- A tree of stores, and the state of the user. A store is named by the way to it from the root, its last turn first:
`turn :: p` is below `p`. -/
structure StoreTree (κ σ ν : Type) where
  stores : List κ → Store σ ν := fun _ => {}
  user : σ

namespace StoreTree
variable {κ σ ν : Type}

inductive Operation (σ ν : Type) where
  | ask (key : Key) (request : Request σ ν)
  | close

structure Call (κ σ ν : Type) where
  place : List κ
  operation : Operation σ ν

/-- How a call ends. Closing answers nothing. -/
abbrev Outcome := Except Fault (Option Stored)

def above (t : StoreTree κ σ ν) (p : List κ) : List (Store σ ν) := p.tails.tail.map t.stores

theorem chain_eq (t : StoreTree κ σ ν) (p : List κ) : t.stores p :: t.above p = p.tails.map t.stores := by
  cases p <;> rfl

theorem lookup_map (stores : List κ → Store σ ν) (ps : List (List κ)) (key : Key) :
    lookup key (ps.map stores) = ps.findSome? fun q => (stores q).values.lookup key := by
  induction ps with
  | nil => rfl
  | cons q ps ih =>
    simp only [List.map_cons, lookup, List.findSome?_cons]
    cases (stores q).values.lookup key with
    | none => exact ih
    | some v => rfl

variable [DecidableEq κ]

/-- Makes a call: how it ends, the notes that are left, and the tree behind it. -/
def perform (t : StoreTree κ σ ν) (c : Call κ σ ν) : Outcome × List ν × StoreTree κ σ ν :=
  let s := t.stores c.place
  match c.operation with
  | .ask key request =>
    let (outcome, notes, user) := s.perform (t.above c.place) key request t.user
    (outcome.map (·.1), notes, { stores := Function.update t.stores c.place (s.behind outcome), user })
  | .close =>
    let (outcome, notes, user) := s.release t.user
    (outcome.map fun _ => none, notes, { stores := Function.update t.stores c.place s.close, user })

theorem perform_ask (t : StoreTree κ σ ν) (p : List κ) (key : Key) (request : Request σ ν) :
    t.perform ⟨p, .ask key request⟩ =
      let (outcome, notes, user) := (t.stores p).perform (t.above p) key request t.user
      (outcome.map (·.1), notes, { stores := Function.update t.stores p ((t.stores p).behind outcome), user }) := rfl

/-- A request that ends with a lookup changes nothing, whether that fails or not. -/
theorem perform_looked {t : StoreTree κ σ ν} {p : List κ} {key : Key} {request : Request σ ν} {outcome : Outcome}
    (looked : (t.stores p).perform (t.above p) key request t.user = (outcome.map (·, t.stores p), [], t.user)) :
    t.perform ⟨p, .ask key request⟩ = (outcome, [], t) := by
  rw [perform_ask, looked]
  simp only [behind_looked, Function.update_eq_self]
  cases outcome <;> rfl

theorem perform_get (t : StoreTree κ σ ν) (p : List κ) (key : Key) (typeName : String) :
    t.perform ⟨p, .ask key (.get typeName)⟩ =
      (typed key typeName (lookup key (t.stores p :: t.above p)), [], t) := perform_looked rfl

theorem perform_found {t : StoreTree κ σ ν} {p : List κ} {key : Key} {v : Stored}
    (found : lookup key (t.stores p :: t.above p) = some v) (typeName : String) (compute : Action σ ν Value) :
    t.perform ⟨p, .ask key (.getOrCompute typeName compute)⟩ = (typed key typeName (some v), [], t) := by
  refine perform_looked ?_
  simp only [Store.perform, found]

/-- Where nothing is found a value is computed, and stored unless that fails. -/
theorem perform_missing {t : StoreTree κ σ ν} {p : List κ} {key : Key}
    (missing : lookup key (t.stores p :: t.above p) = none) (typeName : String) (compute : Action σ ν Value) :
    t.perform ⟨p, .ask key (.getOrCompute typeName compute)⟩ =
      let (outcome, notes, user) := compute t.user
      (outcome.map fun value => some ⟨typeName, value⟩, notes, {
        stores := match outcome with
          | .ok value => Function.update t.stores p ((t.stores p).put key ⟨typeName, value⟩)
          | .error _ => t.stores
        user }) := by
  rw [perform_ask]
  simp only [Store.perform, missing]
  rcases computed : compute t.user with ⟨fault | value, notes, user⟩
  · simp only [Action.bind, computed, behind, Function.update_eq_self]
    rfl
  · simp only [Action.bind, computed, Action.pure, List.append_nil, behind]
    rfl

/-- A call changes no store but the one it is made of. -/
theorem stores_perform (t : StoreTree κ σ ν) (c : Call κ σ ν) {q : List κ} (other : q ≠ c.place) :
    (t.perform c).2.2.stores q = t.stores q := by
  obtain ⟨p, operation⟩ := c
  cases operation <;> exact Function.update_of_ne other _ _

/-- A tree behind calls, and the calls with how they have ended, the last one first. -/
structure Course (κ σ ν : Type) where
  tree : StoreTree κ σ ν
  history : List (Call κ σ ν × Outcome) := []

def Course.proceed (c : Course κ σ ν) (call : Call κ σ ν) : Course κ σ ν where
  tree := (c.tree.perform call).2.2
  history := (call, (c.tree.perform call).1) :: c.history

/-- The calls are made in order, each whatever has come of the others, of a tree of empty stores. -/
def course (user : σ) (calls : List (Call κ σ ν)) : Course κ σ ν :=
  calls.foldl Course.proceed { tree := { user } }

@[simp] theorem course_append (user : σ) (calls later : List (Call κ σ ν)) :
    course user (calls ++ later) = later.foldl Course.proceed (course user calls) := by
  simp [course]

/-- What was last stored under a key in a store itself, if it has not been removed since. -/
def latest : List (Call κ σ ν × Outcome) → List κ → Key → Option Stored
  | [], _, _ => none
  | (⟨q, .ask k request⟩, outcome) :: earlier, p, key =>
    if q = p ∧ k = key then
      request.leaves (p.tails.findSome? fun r => latest earlier r key) (latest earlier p key) outcome
    else latest earlier p key
  | (⟨_, .close⟩, _) :: earlier, p, key => latest earlier p key

/-- What the nearest store on the way up has that has anything under the key. -/
def visible (history : List (Call κ σ ν × Outcome)) (p : List κ) (key : Key) : Option Stored :=
  p.tails.findSome? fun q => latest history q key

theorem Course.latest_other (c : Course κ σ ν) {call : Call κ σ ν} {p : List κ} (other : p ≠ call.place) (key : Key) :
    latest (c.proceed call).history p key = latest c.history p key := by
  obtain ⟨q, operation⟩ := call
  cases operation with
  | close => rfl
  | ask k request =>
    have apart : ¬ (q = p ∧ k = key) := fun same => other same.1.symm
    simp only [proceed, latest, if_neg apart]

def Course.Told (c : Course κ σ ν) : Prop :=
  ∀ p key, (c.tree.stores p).values.lookup key = latest c.history p key

theorem Course.Told.visible {c : Course κ σ ν} (told : c.Told) (p : List κ) (key : Key) :
    lookup key (c.tree.stores p :: c.tree.above p) = visible c.history p key := by
  rw [chain_eq, lookup_map]
  exact congrArg p.tails.findSome? (funext fun q => told q key)

theorem Course.Told.proceed {c : Course κ σ ν} (told : c.Told) (call : Call κ σ ν) : (c.proceed call).Told := by
  intro p key
  obtain ⟨q, operation⟩ := call
  by_cases here : p = q
  · subst q
    cases operation with
    | close => simpa [Course.proceed, perform, latest, Store.close] using told p key
    | ask k request =>
      have behind := (c.tree.stores p).values_behind (c.tree.above p) k key request c.tree.user
      have changed : (c.proceed ⟨p, .ask k request⟩).tree.stores p =
          (c.tree.stores p).behind ((c.tree.stores p).perform (c.tree.above p) k request c.tree.user).1 :=
        Function.update_self _ _ _
      rw [changed, behind]
      by_cases same : key = k
      · subst k
        rw [if_pos rfl, told.visible, told p key]
        simp [Course.proceed, latest, perform_ask, StoreTree.visible]
      · simp [Course.proceed, latest, same, Ne.symm same, told p key]
  · have same : (c.proceed ⟨q, operation⟩).tree.stores p = c.tree.stores p := stores_perform _ _ here
    rw [same, c.latest_other here]
    exact told p key

theorem course_told (user : σ) (calls : List (Call κ σ ν)) : (course user calls).Told := by
  induction calls using List.reverseRecOn with
  | nil => exact fun _ _ => rfl
  | append_singleton calls call ih =>
    rw [course_append]
    exact ih.proceed call

theorem visible_root (history : List (Call κ σ ν × Outcome)) (key : Key) :
    visible history [] key = latest history [] key := by
  show [[]].findSome? _ = _
  rw [List.findSome?_cons]
  cases latest history [] key <;> rfl

theorem visible_turn (history : List (Call κ σ ν × Outcome)) (turn : κ) (p : List κ) (key : Key) :
    visible history (turn :: p) key = (latest history (turn :: p) key).or (visible history p key) := by
  show ((turn :: p) :: p.tails).findSome? _ = _
  rw [List.findSome?_cons]
  cases latest history (turn :: p) key <;> rfl

/-- A call bears only on what is visible at the store it is made of and below. -/
theorem Course.visible_outside (c : Course κ σ ν) {call : Call κ σ ν} {p : List κ} (outside : ¬ call.place <:+ p)
    (key : Key) : visible (c.proceed call).history p key = visible c.history p key := by
  have other : p ≠ call.place := fun same => outside (same ▸ List.suffix_refl p)
  induction p with
  | nil => rw [visible_root, visible_root, c.latest_other other]
  | cons turn p ih =>
    have above : ¬ call.place <:+ p := fun suffix => outside (suffix.trans (List.suffix_cons turn p))
    rw [visible_turn, visible_turn, c.latest_other other, ih above fun same => above (same ▸ List.suffix_refl p)]

/-- What is removed uncovers what is visible above. -/
theorem Course.visible_uncovered (c : Course κ σ ν) (turn : κ) (p : List κ) (key : Key) :
    visible (c.proceed ⟨turn :: p, .ask key .remove⟩).history (turn :: p) key = visible c.history p key := by
  have gone : latest (c.proceed ⟨turn :: p, .ask key .remove⟩).history (turn :: p) key = none := by
    simp [proceed, latest, Request.leaves]
  have outside : ¬ turn :: p <:+ p := by
    intro suffix
    have shorter := suffix.length_le
    simp only [List.length_cons] at shorter
    omega
  rw [visible_turn, gone, Option.none_or]
  exact c.visible_outside outside key

theorem visible_own {history : List (Call κ σ ν × Outcome)} {p : List κ} {key : Key} {v : Stored}
    (own : latest history p key = some v) : visible history p key = some v := by
  cases p with
  | nil => rw [visible_root, own]
  | cons turn p => rw [visible_turn, own, Option.some_or]

/-- What a store has is visible below it where no store in between has anything. -/
theorem visible_nearest {history : List (Call κ σ ν × Outcome)} {p q : List κ} {key : Key} {v : Stored}
    (own : latest history p key = some v) (below : p <:+ q)
    (between : ∀ r, p <:+ r → r <:+ q → r ≠ p → latest history r key = none) : visible history q key = some v := by
  obtain ⟨turns, rfl⟩ := below
  induction turns with
  | nil => exact visible_own own
  | cons turn turns ih =>
    have longer : turn :: turns ++ p ≠ p := by
      intro same
      have lengths := congrArg List.length same
      simp at lengths
      omega
    have nothing := between (turn :: turns ++ p) (List.suffix_append _ _) (List.suffix_refl _) longer
    rw [List.cons_append] at nothing ⊢
    rw [visible_turn, nothing, Option.none_or]
    exact ih fun r above below other => between r above (below.trans (List.suffix_cons _ _)) other

/-- What a call puts under a key of a store. -/
def Call.put? (c : Call κ σ ν) (p : List κ) (key : Key) : Option Stored :=
  if c.place = p then
    match c.operation with
    | .ask k (.put v) | .ask k (.putResource v _) => if k = key then some v else none
    | .ask _ _ | .close => none
  else none

/-- What is under a key stays there until something else is put there or it is removed. -/
theorem Course.latest_proceed {c : Course κ σ ν} {call : Call κ σ ν} {p : List κ} {key : Key} {v : Stored}
    (own : latest c.history p key = some v) (kept : call ≠ ⟨p, .ask key .remove⟩) :
    latest (c.proceed call).history p key = some ((call.put? p key).getD v) := by
  obtain ⟨q, operation⟩ := call
  by_cases here : q = p
  · subst q
    cases operation with
    | close => simpa [proceed, latest, Call.put?] using own
    | ask k request =>
      by_cases same : k = key
      · subst k
        have found : (p.tails.findSome? fun r => latest c.history r key) = some v := visible_own own
        cases request with
        | put | putResource => simp [proceed, latest, Request.leaves, Call.put?]
        | remove => exact absurd rfl kept
        | get | getOrCompute => simp [proceed, latest, Request.leaves, Call.put?, found, own]
      · have apart : (⟨p, .ask k request⟩ : Call κ σ ν).put? p key = none := by
          cases request <;> simp [Call.put?, same]
        simp [proceed, latest, same, own, apart]
  · rw [c.latest_other (Ne.symm here), own]
    simp [Call.put?, here]

theorem Course.latest_later {c : Course κ σ ν} {later : List (Call κ σ ν)} {p : List κ} {key : Key} {v : Stored}
    (own : latest c.history p key = some v) (kept : ⟨p, .ask key .remove⟩ ∉ later) :
    latest (later.foldl proceed c).history p key = some ((later.filterMap (·.put? p key)).getLastD v) := by
  induction later generalizing c v with
  | nil => exact own
  | cons call later ih =>
    simp only [List.mem_cons, not_or] at kept
    have first := latest_proceed own (Ne.symm kept.1)
    rw [List.foldl_cons, ih first kept.2]
    cases put : call.put? p key with
    | none => simp only [List.filterMap_cons, put, Option.getD_none]
    | some w => simp only [List.filterMap_cons, put, Option.getD_some, List.getLastD_cons]

/-- How calls for a key of a store end, told by what is under the key there and what is visible. Lookups change nothing,
and nothing is computed where anything is visible. -/
structure Course.Answers (c : Course κ σ ν) (p : List κ) (key : Key) : Prop where
  put : ∀ v, ∃ stores, c.tree.perform ⟨p, .ask key (.put v)⟩ =
    (.ok (latest c.history p key), [], { stores, user := c.tree.user })
  putResource : ∀ v close, ∃ stores, c.tree.perform ⟨p, .ask key (.putResource v close)⟩ =
    (.ok (some v), [], { stores, user := c.tree.user })
  remove : ∃ stores, c.tree.perform ⟨p, .ask key .remove⟩ =
    (.ok (latest c.history p key), [], { stores, user := c.tree.user })
  found : ∀ v, visible c.history p key = some v →
    c.tree.perform ⟨p, .ask key (.get v.typeName)⟩ = (.ok (some v), [], c.tree) ∧
    ∀ compute, c.tree.perform ⟨p, .ask key (.getOrCompute v.typeName compute)⟩ = (.ok (some v), [], c.tree)
  mistyped : ∀ v typeName, visible c.history p key = some v → v.typeName ≠ typeName →
    c.tree.perform ⟨p, .ask key (.get typeName)⟩ = (.error (.error (wrongType key typeName)), [], c.tree) ∧
    ∀ compute, c.tree.perform ⟨p, .ask key (.getOrCompute typeName compute)⟩ =
      (.error (.error (wrongType key typeName)), [], c.tree)
  missing : visible c.history p key = none → ∀ typeName,
    c.tree.perform ⟨p, .ask key (.get typeName)⟩ = (.ok none, [], c.tree) ∧
    ∀ compute, ∃ stores, c.tree.perform ⟨p, .ask key (.getOrCompute typeName compute)⟩ =
      ((compute c.tree.user).1.map fun value => some ⟨typeName, value⟩, (compute c.tree.user).2.1,
        { stores, user := (compute c.tree.user).2.2 })

theorem Course.Told.answers {c : Course κ σ ν} (told : c.Told) (p : List κ) (key : Key) : c.Answers p key where
  put v := ⟨_, by rw [perform_ask, ← told p key]; rfl⟩
  putResource v close := ⟨_, by rw [perform_ask]; rfl⟩
  remove := ⟨_, by rw [perform_ask, ← told p key]; rfl⟩
  found v found := by
    have own : typed key v.typeName (some v) = .ok (some v) := if_pos rfl
    exact ⟨by rw [perform_get, told.visible, found, own],
      fun compute => by rw [perform_found ((told.visible p key).trans found), own]⟩
  mistyped v typeName found other := by
    have error : typed key typeName (some v) = .error (.error (wrongType key typeName)) := if_neg other
    exact ⟨by rw [perform_get, told.visible, found, error],
      fun compute => by rw [perform_found ((told.visible p key).trans found), error]⟩
  missing none typeName := by
    refine ⟨by rw [perform_get, told.visible, none]; rfl, fun compute => ?_⟩
    rw [perform_missing ((told.visible p key).trans none)]
    exact ⟨_, rfl⟩

/-- What is computed where nothing is visible is under the key behind it. -/
theorem Course.latest_computed {c : Course κ σ ν} (told : c.Told) {p : List κ} {key : Key} {typeName : String}
    {compute : Action σ ν Value} {value : Value} (missing : visible c.history p key = none)
    (computed : (compute c.tree.user).1 = .ok value) :
    latest (c.proceed ⟨p, .ask key (.getOrCompute typeName compute)⟩).history p key = some ⟨typeName, value⟩ := by
  obtain ⟨stores, performed⟩ := ((told.answers p key).missing missing typeName).2 compute
  have unseen : (p.tails.findSome? fun r => latest c.history r key) = none := missing
  simp only [proceed, latest, and_self, if_true, unseen, performed, computed]
  rfl

/-- In a tree of stores, after any calls of them in any order: lookups find what was last stored and not removed
since in the nearest store upwards, and every call ends as that tells. What is removed uncovers what is visible above.
No call bears on a store above the one it is made of, or beside it. What is computed since nothing was visible is
visible behind it, there and below, up to where something nearer is stored, as long as it is neither overwritten nor
removed. -/
theorem lookups_scoped (user : σ) (calls : List (Call κ σ ν)) :
    let c := course user calls
    (∀ p key, c.Answers p key) ∧
    (∀ key, visible (c.proceed ⟨[], .ask key .remove⟩).history [] key = none ∧ ∀ turn p,
      visible (c.proceed ⟨turn :: p, .ask key .remove⟩).history (turn :: p) key = visible c.history p key) ∧
    (∀ call q, ¬ call.place <:+ q →
      (∀ r, r <:+ q → (c.proceed call).tree.stores r = c.tree.stores r) ∧
      ∀ key, visible (c.proceed call).history q key = visible c.history q key) ∧
    ∀ p key typeName compute value, visible c.history p key = none → (compute c.tree.user).1 = .ok value →
      ∀ later, (∀ call ∈ later, call.put? p key = none ∧ call ≠ ⟨p, .ask key .remove⟩) →
        let d := course user (calls ++ ⟨p, .ask key (.getOrCompute typeName compute)⟩ :: later)
        ∀ q, p <:+ q → (∀ r, p <:+ r → r <:+ q → r ≠ p → latest d.history r key = none) →
          visible d.history q key = some ⟨typeName, value⟩ := by
  intro c
  have told : c.Told := course_told user calls
  refine ⟨told.answers, fun key => ⟨?_, fun turn p => ?_⟩, fun call q outside => ⟨fun r upwards => ?_, ?_⟩, ?_⟩
  · simp [visible_root, Course.proceed, latest, Request.leaves]
  · exact c.visible_uncovered turn p key
  · have other : r ≠ call.place := fun same => outside (same ▸ upwards)
    exact stores_perform _ _ other
  · exact c.visible_outside outside
  · intro p key typeName compute value none computed later apart d q below between
    let call : Call κ σ ν := ⟨p, .ask key (.getOrCompute typeName compute)⟩
    have stays : latest d.history p key = some ⟨typeName, value⟩ := by
      have behind : d = later.foldl Course.proceed (c.proceed call) := course_append user calls (call :: later)
      have nothing : later.filterMap (·.put? p key) = [] :=
        List.filterMap_eq_nil_iff.mpr fun x member => (apart x member).1
      have own : latest (c.proceed call).history p key = some ⟨typeName, value⟩ :=
        Course.latest_computed told none computed
      rw [behind, Course.latest_later own fun member => (apart _ member).2 rfl, nothing]
      rfl
    exact visible_nearest stays below between

private def start : Key := ⟨["timing"], "start"⟩

private def answer : Key := ⟨[], "answer"⟩

private def number (i : Int) : Stored := ⟨"int", .int i⟩

/-- Below the root is one store and below that another. The middle one hides what is above, and gives it up again. -/
private def nested : List (Call Bool Unit String) :=
  [⟨[], .ask start (.put (number 10))⟩, ⟨[true], .ask start (.put (number 20))⟩, ⟨[false, true], .close⟩,
    ⟨[true], .ask start .remove⟩]

private def computes : Call Bool Unit String :=
  ⟨[true], .ask answer (.getOrCompute "int" fun user => (.ok (.int 42), ["computed"], user))⟩

theorem lookups_scoped_sample :
    let c := course () nested
    visible c.history [false, true] start = some (number 10) ∧
    c.tree.perform ⟨[false, true], .ask start (.get "text")⟩ = (.error (.error (wrongType start "text")), [], c.tree) ∧
    (¬ computes.place <:+ [] ∧ visible (c.proceed computes).history [] answer = visible c.history [] answer) ∧
    visible c.history [true] answer = none ∧
    visible (course () (nested ++ computes :: [⟨[], .ask answer (.put (number 0))⟩])).history [false, true] answer =
      some (number 42) := by
  intro c
  obtain ⟨answers, _, outside, computed⟩ := lookups_scoped () nested
  have found : visible c.history [false, true] start = some (number 10) := rfl
  have apart : ¬ computes.place <:+ [] := by simp [computes]
  have missing : visible c.history [true] answer = none := rfl
  refine ⟨found, ?_, ⟨apart, (outside computes [] apart).2 answer⟩, missing, ?_⟩
  · exact ((answers [false, true] start).mistyped _ "text" found (by decide)).1
  · refine computed [true] answer "int" _ (.int 42) missing rfl _ ?_ [false, true] ⟨[false], rfl⟩ ?_
    · simp [Call.put?]
    · intro r above below other
      rcases List.suffix_cons_iff.mp below with rfl | here
      · rfl
      · exact absurd (above.eq_of_length_le here.length_le).symm other

end StoreTree
end TestEngine

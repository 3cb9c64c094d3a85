import TestEngine.Proofs.Bookkeeping
import TestEngine.Proofs.Counting

/-! Resources in trees of stores. Closing a store closes what has been put into it since it was last closed and whose
keys have not been removed since, the newest first, whatever fails. Removing a key gives up all resources that were put
under it: the last value is handed back, and those it has overwritten are never closed. -/
namespace TestEngine

open Store

namespace Action
variable {σ ν : Type}

theorem inOrder_append (first second : List (Action σ ν Unit)) (user : σ) :
    (inOrder (first ++ second) user).2 = (inOrder second (inOrder first user).2).2 := by
  induction first generalizing user with
  | nil => rfl
  | cons action first ih => exact ih _

end Action

namespace StoreTree
variable {κ σ ν : Type} [DecidableEq κ]

/-- What a store has been asked for since it was last closed. -/
def sinceClosed (p : List κ) (calls : List (Call κ σ ν)) : List (Key × Request σ ν) :=
  calls.foldl (fun asked call =>
    if call.place = p then
      match call.operation with
      | .ask key request => asked ++ [(key, request)]
      | .close => []
    else asked) []

theorem surviving_concat (requests : List (Key × Request σ ν)) (key : Key) (request : Request σ ν) :
    surviving (requests ++ [(key, request)]) = request.keep key (surviving requests) := by
  simp only [← keepAll_nil, keepAll, List.foldl_append, List.foldl_cons, List.foldl_nil]

theorem resources_ask (t : StoreTree κ σ ν) (p : List κ) (key : Key) (request : Request σ ν) :
    ((t.perform ⟨p, .ask key request⟩).2.2.stores p).resources = request.keep key (t.stores p).resources := by
  rw [perform_ask]
  simp only [Function.update_self]
  exact resources_behind _ _ _ _ _

/-- What a store has to close is what has been put into it since it was closed and not been removed. -/
theorem resources_course (user : σ) (calls : List (Call κ σ ν)) (p : List κ) :
    ((course user calls).tree.stores p).resources = surviving (sinceClosed p calls) := by
  induction calls using List.reverseRecOn with
  | nil => rfl
  | append_singleton calls call ih =>
    obtain ⟨q, operation⟩ := call
    rw [course_append, List.foldl_cons, List.foldl_nil, sinceClosed, List.foldl_append, ← sinceClosed]
    by_cases here : q = p
    · subst q
      cases operation with
      | close => simp [Course.proceed, perform, Store.close, surviving]
      | ask key request =>
        simp only [List.foldl_cons, List.foldl_nil, if_true, surviving_concat, ← ih]
        exact resources_ask _ _ _ _
    · have same : ((course user calls).proceed ⟨q, operation⟩).tree.stores p = (course user calls).tree.stores p :=
        stores_perform _ _ (Ne.symm here)
      simpa [here, same] using ih

/-- Whatever has been done with the stores of a tree, closing one of them runs what closes each resource that has been
put into it since it was last closed and whose key has not been removed since then: once each, the newest first, and
whatever the others raise. Without errors that is a success, else all of them are raised as a collector gathers them.
Nothing else changes, in this store or in any other; closed again at once, it runs nothing. -/
theorem resources_closed (user : σ) (calls : List (Call κ σ ν)) (p : List κ) :
    let t := (course user calls).tree
    let due := newestFirst (surviving (sinceClosed p calls))
    let failures := Action.errors due t.user
    let closed : StoreTree κ σ ν := {
      stores := Function.update t.stores p { t.stores p with resources := [] }
      user := (Action.inOrder due t.user).2 }
    t.perform ⟨p, .close⟩ = ((match (failures.foldl Collector.add .empty).primary with
      | none => .ok none
      | some e => .error (.error e)), (Action.inOrder due t.user).1, closed) ∧
    ((failures.foldl Collector.add .empty).primary = none ↔ failures = []) ∧
    closed.perform ⟨p, .close⟩ = (.ok none, [], closed) := by
  intro t due failures closed
  have kept : (t.stores p).resources = surviving (sinceClosed p calls) := resources_course user calls p
  have gathers : Gathers (failures.foldl Collector.add .empty).primary failures := Collector.gathers_foldl .nil failures
  refine ⟨?_, gathers.none_iff, ?_⟩
  · have released : (t.stores p).release = Action.all due := by
      rw [Store.release, kept]
      rfl
    simp only [perform, released, Action.all_eq]
    refine Prod.ext ?_ rfl
    dsimp only
    cases ((Action.errors due t.user).foldl Collector.add .empty).primary <;> rfl
  · have emptied : closed.stores p = { t.stores p with resources := [] } := Function.update_self _ _ _
    have same : Function.update closed.stores p { t.stores p with resources := [] } = closed.stores := by
      rw [← emptied, Function.update_eq_self]
    simp only [perform, emptied]
    exact congrArg (fun stores => (_, _, { closed with stores })) same

private def stubborn (key : String) : Call Bool Unit String :=
  ⟨[], .ask ⟨[], key⟩ (.putResource ⟨"stubborn", .text key⟩ fun user =>
    (.error (.error (.failure key)), ["close " ++ key], user))⟩

/-- Of three resources one is removed and one overwritten. Those that are left both fail. -/
example :
    let calls := [stubborn "a", stubborn "b", stubborn "c", ⟨[], .ask ⟨[], "c"⟩ .remove⟩,
      ⟨[], .ask ⟨[], "a"⟩ (.put ⟨"int", .int 1⟩)⟩]
    let closed := (course () calls).tree.perform ⟨[], .close⟩
    closed.1 = .error (.error ((TestError.failure "b").suppress (.failure "a"))) ∧
      closed.2.1 = ["close b", "close a"] := ⟨rfl, rfl⟩

section
variable {count : σ → Nat}

/-- An action that the count does not see. -/
def Uncounted (count : σ → Nat) {α : Type} (action : Action σ ν α) : Prop :=
  ∀ user, count (action user).2.2 = count user

/-- The count sees neither what a call computes nor what closes the resource it puts into a store. -/
def Call.Uncounted (count : σ → Nat) (c : Call κ σ ν) : Prop :=
  match c.operation with
  | .ask _ (.putResource _ close) => StoreTree.Uncounted count close
  | .ask _ (.getOrCompute _ compute) => StoreTree.Uncounted count compute
  | .ask _ (.get _) | .ask _ (.put _) | .ask _ .remove | .close => True

omit [DecidableEq κ] in
theorem uncounted_newestFirst {resources : List (Resource σ ν)} (all : ∀ r ∈ resources, Uncounted count r.2)
    (user : σ) : count (Action.inOrder (newestFirst resources) user).2 = count user := by
  have each : ∀ action ∈ newestFirst resources, Uncounted count action := by
    intro action member
    obtain ⟨r, kept, rfl⟩ := List.mem_map.mp member
    exact all r (List.mem_reverse.mp kept)
  generalize newestFirst resources = actions at each
  induction actions generalizing user with
  | nil => rfl
  | cons action rest ih =>
    have first := each action (by simp) user
    have others := ih (action user).2.2 fun x member => each x (by simp [member])
    exact others.trans first

/-- No store keeps a resource whose closing is counted. -/
def Clear (count : σ → Nat) (t : StoreTree κ σ ν) : Prop :=
  ∀ q, ∀ r ∈ (t.stores q).resources, Uncounted count r.2

/-- Of all that stores keep, the count sees one resource, put under a key of one store. -/
structure Keeps (count : σ → Nat) (p : List κ) (key : Key) (close : Action σ ν Unit) (t : StoreTree κ σ ν) : Prop where
  elsewhere : ∀ q, q ≠ p → ∀ r ∈ (t.stores q).resources, Uncounted count r.2
  here : ∃ older newer, (t.stores p).resources = older ++ (key, close) :: newer ∧
    ∀ r ∈ older ++ newer, Uncounted count r.2

theorem uncounted_ask {t : StoreTree κ σ ν} {p : List κ} {key : Key} {request : Request σ ν}
    (uncounted : Call.Uncounted count ⟨p, .ask key request⟩) :
    count (t.perform ⟨p, .ask key request⟩).2.2.user = count t.user := by
  cases request with
  | get | put | putResource | remove => rfl
  | getOrCompute typeName compute =>
    cases visible : lookup key (t.stores p :: t.above p) with
    | some v => rw [perform_found visible]
    | none =>
      rw [perform_missing visible]
      exact uncounted t.user

theorem user_close (t : StoreTree κ σ ν) (p : List κ) : (t.perform ⟨p, .close⟩).2.2.user =
    (Action.inOrder (newestFirst (t.stores p).resources) t.user).2 := by
  rw [← Action.all_inOrder]
  rfl

theorem resources_close (t : StoreTree κ σ ν) (p : List κ) :
    ((t.perform ⟨p, .close⟩).2.2.stores p).resources = [] := by
  simp [perform, Store.close]

theorem uncounted_close {t : StoreTree κ σ ν} {p : List κ}
    (all : ∀ r ∈ (t.stores p).resources, Uncounted count r.2) :
    count (t.perform ⟨p, .close⟩).2.2.user = count t.user := by
  rw [user_close]
  exact uncounted_newestFirst all t.user

/-- An uncounted call leaves a store without counted resources if it had none before. -/
theorem uncounted_perform {t : StoreTree κ σ ν} {call : Call κ σ ν} (uncounted : call.Uncounted count) {q : List κ}
    (before : ∀ r ∈ (t.stores q).resources, Uncounted count r.2) :
    ∀ r ∈ ((t.perform call).2.2.stores q).resources, Uncounted count r.2 := by
  obtain ⟨p, operation⟩ := call
  by_cases here : q = p
  · subst q
    cases operation with
    | close =>
      rw [resources_close]
      exact nofun
    | ask key request =>
      rw [resources_ask]
      intro r member
      cases request with
      | get | put | getOrCompute => exact before r member
      | remove => exact before r (List.mem_of_mem_filter member)
      | putResource v close =>
        rcases List.mem_append.mp member with old | new
        · exact before r old
        · rw [List.mem_singleton.mp new]
          exact uncounted
  · rw [stores_perform t _ here]
    exact before

/-- Uncounted calls of stores that keep nothing that is counted do not change the count. -/
theorem Clear.perform {t : StoreTree κ σ ν} (clear : Clear count t) {call : Call κ σ ν}
    (uncounted : call.Uncounted count) :
    Clear count (t.perform call).2.2 ∧ count (t.perform call).2.2.user = count t.user := by
  refine ⟨fun q => uncounted_perform uncounted (clear q), ?_⟩
  obtain ⟨p, operation⟩ := call
  cases operation with
  | ask key request => exact uncounted_ask uncounted
  | close => exact uncounted_close (clear p)

theorem Clear.later {c : Course κ σ ν} (clear : Clear count c.tree) {calls : List (Call κ σ ν)}
    (uncounted : ∀ call ∈ calls, call.Uncounted count) :
    Clear count (calls.foldl Course.proceed c).tree ∧
      count (calls.foldl Course.proceed c).tree.user = count c.tree.user := by
  induction calls generalizing c with
  | nil => exact ⟨clear, rfl⟩
  | cons call calls ih =>
    obtain ⟨still, same⟩ := clear.perform (uncounted call (by simp))
    obtain ⟨behind, total⟩ := ih (c := c.proceed call) still fun x member => uncounted x (by simp [member])
    exact ⟨behind, total.trans same⟩

variable {p : List κ} {key : Key} {close : Action σ ν Unit} {t : StoreTree κ σ ν}

theorem Clear.put (clear : Clear count t) (v : Stored) (close : Action σ ν Unit) :
    Keeps count p key close (t.perform ⟨p, .ask key (.putResource v close)⟩).2.2 ∧
      (t.perform ⟨p, .ask key (.putResource v close)⟩).2.2.user = t.user := by
  refine ⟨⟨fun q other => ?_, (t.stores p).resources, [], ?_, ?_⟩, rfl⟩
  · rw [stores_perform t _ other]
    exact clear q
  · exact resources_ask t p key _
  · simpa using clear p

/-- The resource is kept as long as its store is not closed and its key is not removed there. -/
theorem Keeps.perform (keeps : Keeps count p key close t) {call : Call κ σ ν} (uncounted : call.Uncounted count)
    (open' : call ≠ ⟨p, .close⟩) (kept : call ≠ ⟨p, .ask key .remove⟩) :
    Keeps count p key close (t.perform call).2.2 ∧ count (t.perform call).2.2.user = count t.user := by
  obtain ⟨q, operation⟩ := call
  obtain ⟨older, newer, same, others⟩ := keeps.here
  have elsewhere := fun r other => uncounted_perform uncounted (keeps.elsewhere r other)
  by_cases here : q = p
  · subst q
    cases operation with
    | close => exact absurd rfl open'
    | ask k request =>
      refine ⟨⟨elsewhere, ?_⟩, uncounted_ask uncounted⟩
      rw [resources_ask, same]
      cases request with
      | get | put | getOrCompute => exact ⟨older, newer, rfl, others⟩
      | putResource v c =>
        refine ⟨older, newer ++ [(k, c)], by simp [Request.keep], fun r member => ?_⟩
        rw [← List.append_assoc] at member
        rcases List.mem_append.mp member with old | new
        · exact others r old
        · rw [List.mem_singleton.mp new]
          exact uncounted
      | remove =>
        have apart : key ≠ k := fun alike => kept (by rw [alike])
        refine ⟨older.filter (·.1 ≠ k), newer.filter (·.1 ≠ k), by simp [Request.keep, apart], fun r member => ?_⟩
        rw [← List.filter_append] at member
        exact others r (List.mem_of_mem_filter member)
  · have unchanged : (t.perform ⟨q, operation⟩).2.2.stores p = t.stores p := stores_perform t _ (Ne.symm here)
    refine ⟨⟨elsewhere, older, newer, by rw [unchanged, same], others⟩, ?_⟩
    cases operation with
    | ask k request => exact uncounted_ask uncounted
    | close => exact uncounted_close (keeps.elsewhere q here)

theorem Keeps.later {c : Course κ σ ν} (keeps : Keeps count p key close c.tree) {calls : List (Call κ σ ν)}
    (uncounted : ∀ call ∈ calls, call.Uncounted count) (open' : ⟨p, .close⟩ ∉ calls)
    (kept : ⟨p, .ask key .remove⟩ ∉ calls) :
    Keeps count p key close (calls.foldl Course.proceed c).tree ∧
      count (calls.foldl Course.proceed c).tree.user = count c.tree.user := by
  induction calls generalizing c with
  | nil => exact ⟨keeps, rfl⟩
  | cons call calls ih =>
    simp only [List.mem_cons, not_or] at open' kept
    obtain ⟨still, same⟩ := keeps.perform (uncounted call (by simp)) (Ne.symm open'.1) (Ne.symm kept.1)
    obtain ⟨behind, total⟩ :=
      ih (c := c.proceed call) still (fun x member => uncounted x (by simp [member])) open'.2 kept.2
    exact ⟨behind, total.trans same⟩

/-- Removing the key gives the resource up without closing it. -/
theorem Keeps.remove (keeps : Keeps count p key close t) :
    Clear count (t.perform ⟨p, .ask key .remove⟩).2.2 ∧
      count (t.perform ⟨p, .ask key .remove⟩).2.2.user = count t.user := by
  refine ⟨fun q => ?_, rfl⟩
  by_cases here : q = p
  · subst q
    obtain ⟨older, newer, same, others⟩ := keeps.here
    rw [resources_ask, same]
    intro r member
    refine others r ?_
    simp only [Request.keep, List.filter_append, List.mem_append, List.mem_filter, List.mem_cons] at member ⊢
    rcases member with ⟨old, _⟩ | ⟨rfl | new, apart⟩
    · exact .inl old
    · simp at apart
    · exact .inr new
  · rw [stores_perform t _ here]
    exact keeps.elsewhere q here

/-- Closing the store closes the resource once. -/
theorem Keeps.closed (keeps : Keeps count p key close t) (counted : ∀ user, count (close user).2.2 = count user + 1) :
    Clear count (t.perform ⟨p, .close⟩).2.2 ∧ count (t.perform ⟨p, .close⟩).2.2.user = count t.user + 1 := by
  obtain ⟨older, newer, same, others⟩ := keeps.here
  constructor
  · intro q
    by_cases here : q = p
    · subst q
      rw [resources_close]
      exact nofun
    · rw [stores_perform t _ here]
      exact keeps.elsewhere q here
  · have order : newestFirst (t.stores p).resources = newestFirst newer ++ close :: newestFirst older := by
      simp [newestFirst, same]
    rw [user_close, order, Action.inOrder_append]
    show count (Action.inOrder (newestFirst older) _).2 = _
    rw [uncounted_newestFirst (fun r member => others r (by simp [member])), counted,
      uncounted_newestFirst fun r member => others r (by simp [member])]

end

omit [DecidableEq κ] in
theorem uncounted_counting (calls : List (Call κ σ ν)) :
    ∀ call ∈ calls.map (·.counting 0), call.Uncounted (Prod.snd : σ × Nat → Nat) := by
  intro call member
  obtain ⟨⟨p, operation⟩, _, rfl⟩ := List.mem_map.mp member
  cases operation with
  | close => trivial
  | ask key request =>
    cases request with
    | get | put | remove => trivial
    | putResource | getOrCompute => exact fun _ => rfl

section
omit [DecidableEq κ]
variable {calls : List (Call κ σ ν)} {n : Nat} {p : List κ} {key : Key}

theorem close_mem_of_counting (member : ⟨p, .close⟩ ∈ calls.map (Call.counting n)) : ⟨p, .close⟩ ∈ calls := by
  obtain ⟨⟨q, operation⟩, within, same⟩ := List.mem_map.mp member
  cases operation with
  | close => cases same; exact within
  | ask key request => cases same

theorem remove_mem_of_counting (member : ⟨p, .ask key .remove⟩ ∈ calls.map (Call.counting n)) :
    ⟨p, .ask key .remove⟩ ∈ calls := by
  obtain ⟨⟨q, operation⟩, within, same⟩ := List.mem_map.mp member
  cases operation with
  | close => cases same
  | ask k request => cases request <;> cases same; exact within

end

/-- The calls with a count beside the user's state: how often the resource that one of them puts into its store has
been closed. -/
def counted (user : σ) (before : List (Call κ σ ν)) (put : Call κ σ ν) (later : List (Call κ σ ν)) :
    Course κ (σ × Nat) ν :=
  course (user, 0) (before.map (·.counting 0) ++ put.counting 1 :: later.map (·.counting 0))

section
variable (user : σ) (before : List (Call κ σ ν)) (put : Call κ σ ν)

theorem counted_append (later more : List (Call κ σ ν)) : counted user before put (later ++ more) =
    (more.map (·.counting 0)).foldl Course.proceed (counted user before put later) := by
  simp [counted]

/-- The count does not change what the calls do. -/
theorem counted_faithful (later : List (Call κ σ ν)) :
    (counted user before put later).tree.Counts (course user (before ++ put :: later)).tree ∧
    (counted user before put later).history.map (·.2) = (course user (before ++ put :: later)).history.map (·.2) := by
  have each (n : Nat) (calls : List (Call κ σ ν)) :
      List.Forall₂ (fun call' call => ∃ n, call' = Call.counting n call) (calls.map (·.counting n)) calls :=
    List.forall₂_map_left_iff.mpr (List.forall₂_same.mpr fun _ _ => ⟨n, rfl⟩)
  exact course_counts user (List.rel_append (each 0 before) (.cons ⟨1, rfl⟩ (each 0 later)))

theorem clear_counted {later : List (Call κ σ ν)} (more : List (Call κ σ ν))
    (clear : Clear Prod.snd (counted user before put later).tree) :
    (counted user before put (later ++ more)).tree.user.2 = (counted user before put later).tree.user.2 := by
  rw [counted_append]
  exact (clear.later (uncounted_counting more)).2

variable {p : List κ} {key : Key} (v : Stored) (close : Action σ ν Unit)

section
variable {later : List (Call κ σ ν)} (open' : ⟨p, .close⟩ ∉ later) (kept : ⟨p, .ask key .remove⟩ ∉ later)
include open' kept

/-- As long as its store is not closed nor its key removed there, a resource is kept and not closed. -/
theorem keeps_counted :
    let c := counted user before ⟨p, .ask key (.putResource v close)⟩ later
    Keeps Prod.snd p key (close.counting 1) c.tree ∧ c.tree.user.2 = 0 := by
  have none : Clear Prod.snd ({ user := (user, 0) } : StoreTree κ (σ × Nat) ν) := fun _ _ member => nomatch member
  obtain ⟨clear, zero⟩ := Clear.later (c := { tree := { user := (user, 0) } }) none (uncounted_counting before)
  obtain ⟨keeps, unseen⟩ := clear.put v (close.counting 1)
  obtain ⟨still, same⟩ := Keeps.later
    (c := (course (user, 0) (before.map (·.counting 0))).proceed ⟨p, .ask key (.putResource v (close.counting 1))⟩)
    keeps (uncounted_counting later) (mt close_mem_of_counting open') (mt remove_mem_of_counting kept)
  have whole : counted user before ⟨p, .ask key (.putResource v close)⟩ later = (later.map (·.counting 0)).foldl
      Course.proceed ((course (user, 0) (before.map (·.counting 0))).proceed
        ⟨p, .ask key (.putResource v (close.counting 1))⟩) := course_append _ _ _
  rw [whole]
  exact ⟨still, same.trans ((congrArg Prod.snd unseen).trans zero)⟩

theorem closed_counted :
    let c := counted user before ⟨p, .ask key (.putResource v close)⟩ (later ++ [⟨p, .close⟩])
    Clear Prod.snd c.tree ∧ c.tree.user.2 = 1 := by
  obtain ⟨keeps, zero⟩ := keeps_counted user before v close open' kept
  obtain ⟨clear, once⟩ := keeps.closed fun _ => rfl
  rw [counted_append]
  exact ⟨clear, once.trans (congrArg (· + 1) zero)⟩

theorem removed_counted :
    let c := counted user before ⟨p, .ask key (.putResource v close)⟩ (later ++ [⟨p, .ask key .remove⟩])
    Clear Prod.snd c.tree ∧ c.tree.user.2 = 0 := by
  obtain ⟨keeps, zero⟩ := keeps_counted user before v close open' kept
  obtain ⟨clear, same⟩ := keeps.remove
  rw [counted_append]
  exact ⟨clear, same.trans zero⟩

end

/-- What is removed is what was put last. -/
theorem removed_last {later : List (Call κ σ ν)} (kept : ⟨p, .ask key .remove⟩ ∉ later) :
    ((course user (before ++ ⟨p, .ask key (.putResource v close)⟩ :: later)).tree.perform ⟨p, .ask key .remove⟩).1 =
      .ok (some ((later.filterMap (·.put? p key)).getLastD v)) := by
  let c := (course user before).proceed ⟨p, .ask key (.putResource v close)⟩
  have own : latest c.history p key = some v := by
    simp [c, Course.proceed, latest, Request.leaves]
  obtain ⟨stores, performed⟩ := ((course_told user (before ++ _ :: later)).answers p key).remove
  rw [performed, course_append]
  exact congrArg Except.ok (Course.latest_later own kept)

variable (key) in
/-- A resource that is put into a store, among any calls of the stores of a tree, is closed once if its store is closed
later: by the next closing of its store, unless its key is removed there before. Then it is never closed, and what that
removal hands back is what was put under the key last: the resource itself, or what has overwritten it. -/
theorem closed_unless_removed {after : List (Call κ σ ν)} (ending : ⟨p, .close⟩ ∈ after) :
    let put : Call κ σ ν := ⟨p, .ask key (.putResource v close)⟩
    let closings later := (counted user before put later).tree.user.2
    (∀ later,
      (counted user before put later).tree.Counts (course user (before ++ put :: later)).tree ∧
      (counted user before put later).history.map (·.2) = (course user (before ++ put :: later)).history.map (·.2)) ∧
    ∃ span rest, after = span ++ ⟨p, .close⟩ :: rest ∧ ⟨p, .close⟩ ∉ span ∧
      (⟨p, .ask key .remove⟩ ∉ span →
        closings span = 0 ∧ closings (span ++ [⟨p, .close⟩]) = 1 ∧ closings after = 1) ∧
      (⟨p, .ask key .remove⟩ ∈ span → closings after = 0 ∧
        ∃ taken left, span = taken ++ ⟨p, .ask key .remove⟩ :: left ∧ ⟨p, .ask key .remove⟩ ∉ taken ∧
          ((course user (before ++ put :: taken)).tree.perform ⟨p, .ask key .remove⟩).1 =
            .ok (some ((taken.filterMap (·.put? p key)).getLastD v))) := by
  intro put closings
  refine ⟨counted_faithful user before put, ?_⟩
  obtain ⟨span, rest, rfl, open'⟩ := List.eq_append_cons_of_mem ending
  refine ⟨span, rest, rfl, open', fun kept => ?_, fun removed => ?_⟩
  · obtain ⟨_, zero⟩ := keeps_counted user before v close open' kept
    obtain ⟨clear, once⟩ := closed_counted user before v close open' kept
    have onwards := clear_counted user before put rest clear
    rw [List.append_assoc] at onwards
    exact ⟨zero, once, onwards.trans once⟩
  · obtain ⟨taken, left, rfl, kept⟩ := List.eq_append_cons_of_mem removed
    have still : ⟨p, .close⟩ ∉ taken := fun member => open' (by simp [member])
    obtain ⟨clear, zero⟩ := removed_counted user before v close still kept
    have onwards := clear_counted user before put (left ++ ⟨p, .close⟩ :: rest) clear
    refine ⟨?_, taken, left, rfl, kept, removed_last user before v close kept⟩
    simp only [List.append_assoc, List.cons_append] at onwards ⊢
    exact onwards.trans zero

end

private def slot : Key := ⟨[], "k"⟩

private def connection : Stored := ⟨"connection", .text "K"⟩

private def disconnect : Action Unit String Unit := fun user => (.ok (), ["close K"], user)

private def makes : Call Bool Unit String := ⟨[], .ask slot (.putResource connection disconnect)⟩

private def one : Stored := ⟨"int", .int 1⟩

private def overwrites : Call Bool Unit String := ⟨[], .ask slot (.put one)⟩

private def removes : Call Bool Unit String := ⟨[], .ask slot .remove⟩

/-- What has been overwritten is closed, but not once the key has been removed. -/
theorem closed_unless_removed_sample :
    (⟨[], .close⟩ ∈ [overwrites, ⟨[], .close⟩] ∧
      (counted () [] makes [overwrites, ⟨[], .close⟩]).tree.user.2 = 1) ∧
    ⟨[], .close⟩ ∈ [overwrites, removes, ⟨[], .close⟩] ∧
      (counted () [] makes [overwrites, removes, ⟨[], .close⟩]).tree.user.2 = 0 ∧
      ((course () [makes, overwrites]).tree.perform removes).1 = .ok (some one) := by
  have closing : ⟨[], .close⟩ ∈ [overwrites, ⟨[], .close⟩] := by simp
  have later : ⟨[], .close⟩ ∈ [overwrites, removes, ⟨[], .close⟩] := by simp
  constructor
  · obtain ⟨_, span, rest, split, _, kept, _⟩ := closed_unless_removed () [] slot connection disconnect closing
    have untouched : removes ∉ span := by
      intro member
      have among : removes ∈ [overwrites, ⟨[], .close⟩] := split ▸ List.mem_append_left _ member
      simp [removes, overwrites] at among
    exact ⟨closing, (kept untouched).2.2⟩
  · obtain ⟨_, span, rest, split, open', _, removed⟩ := closed_unless_removed () [] slot connection disconnect later
    have inside : span = [overwrites, removes] := by
      rcases span with _ | ⟨a, _ | ⟨b, _ | ⟨c, span⟩⟩⟩ <;> simp_all [overwrites, removes]
    subst inside
    obtain ⟨never, taken, left, cut, kept, handed⟩ := removed (by simp [removes])
    have alone : taken = [overwrites] := by
      rcases taken with _ | ⟨a, _ | ⟨b, taken⟩⟩ <;> simp_all [overwrites, removes]
    subst alone
    exact ⟨later, never, handed⟩

end StoreTree
end TestEngine

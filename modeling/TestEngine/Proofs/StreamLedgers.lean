import TestEngine.Proofs.Expansions
import TestEngine.Proofs.StreamPrograms

/-! What each stream of a program holds: the sources its elements come from, and the close actions given to it. Both
go over to the stream made of it. Marks tell that drawing and closing keep to this. -/
namespace TestEngine

section
variable {σ ν μ α β : Type} {marks : List μ}

/-- Whenever the draw is made, it leaves no other marks than these. -/
def Draw.Within (marks : List μ) (d : Draw σ (μ ⊕ ν) α) : Prop := ∀ user, marksIn (d.effect user).1 ⊆ marks

namespace Draw

theorem within_marked (marks : List μ) (d : Draw σ ν α) : (d.marked marks).Within marks := by
  intro user
  simp [marked]

theorem Within.mono {d : Draw σ (μ ⊕ ν) α} (within : d.Within marks) {more : List μ} (fewer : marks ⊆ more) :
    d.Within more :=
  fun user => List.Subset.trans (within user) fewer

theorem Within.bind {d : Draw σ (μ ⊕ ν) α} (within : d.Within marks) {f : α → Draw σ (μ ⊕ ν) β}
    (each : ∀ a, (f a).Within marks) : (d.bind f).Within marks := by
  intro user
  obtain ⟨effect, item⟩ := d
  cases item with
  | value a => simpa [Draw.bind] using ⟨within user, each a _⟩
  | error | panic => exact within user

end Draw

/-- No draw of the source leaves other marks than these. -/
def Source.Within (marks : List μ) : Source σ (μ ⊕ ν) α → Prop
  | .listed draws => ∀ d ∈ draws, d.Within marks
  | .endless draw => ∀ i, (draw i).Within marks

namespace Source
variable {source first second : Source σ (μ ⊕ ν) α}

theorem within_marked (marks : List μ) (source : Source σ ν α) : (source.marked marks).Within marks := by
  cases source with
  | listed draws => simpa [marked, Within] using fun d _ => d.within_marked marks
  | endless draw => exact fun i => (draw i).within_marked marks

theorem Within.mono (within : source.Within marks) {more : List μ} (fewer : marks ⊆ more) : source.Within more := by
  cases source with
  | listed draws => exact fun d member => (within d member).mono fewer
  | endless draw => exact fun i => (within i).mono fewer

theorem Within.bind (within : source.Within marks) {f : α → Draw σ (μ ⊕ ν) β} (each : ∀ a, (f a).Within marks) :
    (source.bind f).Within marks := by
  cases source with
  | listed draws => simpa [Source.bind, Within] using fun d member => (within d member).bind each
  | endless draw => exact fun i => (within i).bind each

theorem Within.append (left : first.Within marks) (right : second.Within marks) :
    (first.append second).Within marks := by
  cases first with
  | endless draw => exact left
  | listed draws =>
    cases second with
    | listed more =>
      intro d member
      rcases List.mem_append.mp member with member | member
      · exact left d member
      · exact right d member
    | endless draw =>
      intro i
      dsimp only
      split
      · exact left _ (List.getElem_mem _)
      · exact right _

theorem Within.next (within : source.Within marks) {d : Draw σ (μ ⊕ ν) α} {rest : Source σ (μ ⊕ ν) α}
    (next : source.next? = some (d, rest)) : d.Within marks ∧ rest.Within marks := by
  cases source with
  | endless draw =>
    cases next
    exact ⟨within 0, fun i => within (i + 1)⟩
  | listed draws =>
    cases draws with
    | nil => contradiction
    | cons _ others =>
      cases next
      exact ⟨within d List.mem_cons_self, fun d member => within d (List.mem_cons_of_mem _ member)⟩

end Source

/-- Whatever some of the actions raise, each leaves its mark, in their order. -/
theorem Action.marksIn_inOrder {κ : Type} (mark : κ → μ) (actions : List (κ × Action σ ν Unit)) (user : σ) :
    marksIn (inOrder (actions.map fun action => action.2.marked (mark action.1)) user).1 =
      actions.map fun action => mark action.1 := by
  induction actions generalizing user with
  | nil => rfl
  | cons action rest ih => simp [inOrder, marked, ih]

end

namespace StreamPool
variable {ι : Type} {τ : ι → Type} {σ ν : Type}

/-- What a stream holds, by the numbers of the calls that brought it: its sources, and its close actions in the
order they are to run. -/
structure Ledger (σ ν : Type) where
  sources : List Nat
  actions : List (Nat × Action σ ν Unit) := []
  closed : Bool := false

namespace Ledger

def chain (x y : Ledger σ ν) : Ledger σ ν where
  sources := x.sources ++ y.sources
  actions := x.actions ++ y.actions

def close (x : Ledger σ ν) : Ledger σ ν := if x.closed then x else { x with actions := [], closed := true }

end Ledger

/-- A stream made of others is open, even where they are closed. -/
def ledgers : Keeping τ σ ν fun _ => Ledger σ ν where
  create n _ _ := { sources := [n] }
  onClose n action _ x := { x with actions := x.actions ++ [(n, action)] }
  map _ x := { x with closed := false }
  chain := Ledger.chain
  next x := x
  close := Ledger.close

structure Records {α : Type} (s : Stream σ (Mark ⊕ ν) α) (x : Ledger σ ν) : Prop where
  closed : s.closed = x.closed
  onClose : s.onClose = x.actions.map fun action => action.2.marked (.closing action.1)
  source : s.source.Within (x.sources.map .drawing)

theorem ledgers_follow : Follows (τ := τ) (σ := σ) (ν := ν) ledgers Records where
  create n _ source := ⟨rfl, rfl, source.within_marked _⟩
  onClose n action _ s x records :=
    ⟨records.closed, by simp [ledgers, Stream.addClose, records.onClose], records.source⟩
  map f s x records :=
    ⟨rfl, records.onClose, records.source.bind fun a => ((f a).within_marked []).mono (List.nil_subset _)⟩
  chain {_ s t x y} left right := by
    refine ⟨rfl, by simp [ledgers, Ledger.chain, Stream.chain, left.onClose, right.onClose], ?_⟩
    have within := (left.source.mono (List.subset_append_left _ (y.sources.map Mark.drawing))).append
      (right.source.mono (List.subset_append_right (x.sources.map Mark.drawing) _))
    simpa [ledgers, Ledger.chain, Stream.chain] using within
  next {_ s x} records := by
    cases open' : s.closed with
    | true => simpa [ledgers, Stream.next, open'] using records
    | false =>
      cases taken : s.source.next? with
      | none => simpa [ledgers, Stream.next, open', taken] using records
      | some next =>
        simp only [ledgers, Stream.next, open', taken, Bool.false_eq_true, if_false, Option.map_some, Option.getD_some]
        exact ⟨open'.symm.trans records.closed, records.onClose, (records.source.next taken).2⟩
  close {_ s x} records := by
    have same := records.closed
    unfold ledgers Ledger.close Stream.close
    cases open' : x.closed with
    | true => simpa [same, open'] using records
    | false => simpa [same, open'] using ⟨rfl, rfl, records.source⟩

section
variable [DecidableEq ι]

/-- The close actions a call runs, by their numbers. -/
def released (kept : Kept fun _ : ι => Ledger σ ν) : Call τ σ ν → List Nat
  | .close n | .drop n =>
    match slot kept n with
    | some ⟨_, x⟩ => if x.closed then [] else x.actions.map Prod.fst
    | none => []
  | _ => []

/-- The sources a call can draw from, by their numbers. -/
def drawable (kept : Kept fun _ : ι => Ledger σ ν) : Call τ σ ν → List Nat
  | .next n =>
    match slot kept n with
    | some ⟨_, x⟩ => if x.closed then [] else x.sources
    | none => []
  | _ => []

theorem marks_release {α : Type} {s : Stream σ (Mark ⊕ ν) α} {x : Ledger σ ν} (records : Records s x) (user : σ) :
    marksIn (s.release user).2.1 = if x.closed then [] else x.actions.map fun action => .closing action.1 := by
  rw [Stream.release_inOrder, Stream.pending, records.closed]
  split
  · rfl
  · rw [records.onClose, Action.marksIn_inOrder]

/-- A call leaves the marks of the close actions that are due, or marks of sources that it can draw from. -/
theorem marks_effect (calls : List (Call τ σ ν)) (call : Call τ σ ν) (user : σ) :
    let marks := marksIn (effect (streams.behind (numbered calls)) (call.marked calls.length) user).2.1
    let kept := ledgers.behind calls
    marks = (released kept call).map .closing ∨
      released kept call = [] ∧ marks ⊆ (drawable kept call).map .drawing := by
  have alike := ledgers_follow.behind calls
  cases call with
  | create | onClose | map | chain => exact .inl rfl
  | next n =>
    have alike := alike n
    simp only [Call.marked, effect, released, drawable, true_and]
    generalize slot (streams.behind (numbered calls)) n = held, slot (ledgers.behind calls) n = known at alike ⊢
    cases alike with
    | none => exact .inl rfl
    | @some _ s x records =>
      right
      simp only [Stream.next, records.closed]
      cases x.closed with
      | true => exact List.nil_subset _
      | false =>
        cases taken : s.source.next? with
        | none => exact List.nil_subset _
        | some next => exact (records.source.next taken).1 user
  | close n | drop n =>
    have alike := alike n
    simp only [Call.marked, effect, released]
    generalize slot (streams.behind (numbered calls)) n = held, slot (ledgers.behind calls) n = known at alike ⊢
    cases alike with
    | none => exact .inl rfl
    | some records =>
      left
      simp only [marks_release records]
      split <;> simp

theorem held_by_streams (calls : List (Call τ σ ν)) (n : Nat) :
    Alike (fun s x => s.closed = x.closed ∧ s.onClose = x.actions.map Prod.snd)
      (slot (streams.behind calls) n) (slot (ledgers.behind calls) n) := by
  have plain := streams_follow.behind calls n
  have records := ledgers_follow.behind calls n
  generalize slot (streams.behind (numbered calls)) n = marked, slot (streams.behind calls) n = s,
    slot (ledgers.behind calls) n = x at plain records ⊢
  cases plain with
  | none =>
    cases records
    exact .none
  | some related =>
    cases records with
    | some records =>
      subst related
      refine .some ⟨records.closed, ?_⟩
      simp [Stream.unmarked, records.onClose, Action.unmarked_marked]

theorem closed_of_slot {calls : List (Call τ σ ν)} {n : Nat} {x : (_ : ι) × Ledger σ ν}
    (there : slot (ledgers.behind calls) n = some x) :
    ∃ s, slot (streams.behind calls) n = some s ∧ s.2.closed = x.2.closed := by
  have alike := held_by_streams calls n
  rw [there] at alike
  generalize slot (streams.behind calls) n = held at alike ⊢
  cases alike with
  | some related => exact ⟨_, rfl, related.1⟩

/-- The close actions run by a program, by the numbers of the calls that gave them, in the order they ran. -/
def ran (calls : List (Call τ σ ν)) (user : σ) : List Nat :=
  (marksIn (course (numbered calls) user).notes).filterMap Mark.closing?

/-- The sources drawn from by a program, once for each draw, by the numbers of the calls that brought them. -/
def drawn (calls : List (Call τ σ ν)) (user : σ) : List Nat :=
  (marksIn (course (numbered calls) user).notes).filterMap Mark.drawing?

theorem ran_concat (calls : List (Call τ σ ν)) (call : Call τ σ ν) (user : σ) :
    ran (calls ++ [call]) user = ran calls user ++ released (ledgers.behind calls) call := by
  have marks := marks_effect calls call (course (numbered calls) user).user
  simp only [ran, numbered_concat, notes_concat, marksIn_append, List.filterMap_append, List.append_cancel_left_eq]
  rcases marks with marks | ⟨none, marks⟩
  · rw [marks, List.filterMap_map]
    exact List.filterMap_some
  · rw [none, List.filterMap_eq_nil_iff]
    intro mark member
    obtain ⟨_, _, rfl⟩ := List.mem_map.mp (marks member)
    rfl

theorem drawn_concat (calls : List (Call τ σ ν)) (call : Call τ σ ν) (user : σ) :
    ∃ more, drawn (calls ++ [call]) user = drawn calls user ++ more ∧ more ⊆ drawable (ledgers.behind calls) call := by
  have marks := marks_effect calls call (course (numbered calls) user).user
  simp only [drawn, numbered_concat, notes_concat, marksIn_append, List.filterMap_append]
  refine ⟨_, rfl, ?_⟩
  intro n member
  obtain ⟨mark, member, tells⟩ := List.mem_filterMap.mp member
  rcases marks with marks | ⟨_, marks⟩
  · rw [marks] at member
    obtain ⟨_, _, rfl⟩ := List.mem_map.mp member
    contradiction
  · obtain ⟨_, there, rfl⟩ := List.mem_map.mp (marks member)
    cases tells
    exact there

end

section
variable (w : Ledger σ ν → Nat)

def weight (held : Option ((_ : ι) × Ledger σ ν)) : Nat := (held.map fun x => w x.2).getD 0

def total : (Kept fun _ : ι => Ledger σ ν) → Nat
  | [] => 0
  | held :: rest => weight w held + total rest

@[simp] theorem weight_none : weight (ι := ι) w none = 0 := rfl

theorem total_append (kept : Kept fun _ : ι => Ledger σ ν) (made : Option ((_ : ι) × Ledger σ ν)) :
    total w (kept ++ [made]) = total w kept + weight w made := by
  induction kept with
  | nil => simp [total]
  | cons held rest ih =>
    simp only [List.cons_append, total, ih]
    omega

theorem total_set (kept : Kept fun _ : ι => Ledger σ ν) (n : Nat) (now : Option ((_ : ι) × Ledger σ ν))
    (inside : n < kept.length) : total w (kept.set n now) + weight w (slot kept n) = total w kept + weight w now := by
  induction kept generalizing n with
  | nil => contradiction
  | cons held rest ih =>
    cases n with
    | zero =>
      simp only [List.set_cons_zero, total, slot, List.getElem?_cons_zero, Option.join_some]
      omega
    | succ n =>
      have rest := ih n (Nat.lt_of_succ_lt_succ inside)
      simp only [List.set_cons_succ, total, slot, List.getElem?_cons_succ] at rest ⊢
      omega

theorem total_remove (kept : Kept fun _ : ι => Ledger σ ν) (n : Nat) :
    total w (remove n kept) + weight w (slot kept n) = total w kept := by
  by_cases inside : n < kept.length
  · exact total_set w kept n none inside
  · have beyond := Nat.le_of_not_lt inside
    rw [slot_of_le beyond, remove, List.set_eq_of_length_le beyond]
    rfl

theorem total_change (kept : Kept fun _ : ι => Ledger σ ν) (n : Nat) (f : Ledger σ ν → Ledger σ ν) :
    total w (change f n kept) + weight w (slot kept n) =
      total w kept + weight w ((slot kept n).map fun x => ⟨x.1, f x.2⟩) := by
  by_cases inside : n < kept.length
  · exact total_set w kept n _ inside
  · have beyond := Nat.le_of_not_lt inside
    rw [change, List.set_eq_of_length_le beyond, slot_of_le beyond]
    rfl

theorem weight_le_total (kept : Kept fun _ : ι => Ledger σ ν) (n : Nat) : weight w (slot kept n) ≤ total w kept := by
  have split := total_remove w kept n
  omega

/-- Two streams weigh no more than all of them. -/
theorem weights_le_total (kept : Kept fun _ : ι => Ledger σ ν) {n m : Nat} (distinct : m ≠ n) :
    weight w (slot kept n) + weight w (slot kept m) ≤ total w kept := by
  have split := total_remove w kept n
  have rest := weight_le_total w (remove n kept) m
  rw [slot_remove, if_neg distinct] at rest
  omega

theorem total_eq_zero {kept : Kept fun _ : ι => Ledger σ ν} (each : ∀ n x, slot kept n = some x → w x.2 = 0) :
    total w kept = 0 := by
  induction kept with
  | nil => rfl
  | cons held rest ih =>
    have others : total w rest = 0 := ih fun n => each (n + 1)
    have first : weight w held = 0 := by
      cases held with
      | none => rfl
      | some x => exact each 0 x rfl
    simp only [total, first, others]

section
variable [DecidableEq ι]

/-- What a call takes out of the ledgers, apart from what it hands on. -/
def takenOut (kept : Kept fun _ : ι => Ledger σ ν) : Call τ σ ν → Option ((_ : ι) × Ledger σ ν)
  | .onClose n _ | .close n | .drop n => slot kept n
  | _ => none

def putIn (kept : Kept fun _ : ι => Ledger σ ν) : Call τ σ ν → Option ((_ : ι) × Ledger σ ν)
  | .create type _ => some ⟨type, { sources := [kept.length] }⟩
  | .onClose n action =>
    (slot kept n).map fun x => ⟨x.1, { x.2 with actions := x.2.actions ++ [(kept.length, action)] }⟩
  | .close n => (slot kept n).map fun x => ⟨x.1, x.2.close⟩
  | _ => none

/-- What is handed on keeps its weight if a chain weighs what its parts do, and whether it is closed does not count. -/
theorem total_after (chain : ∀ x y : Ledger σ ν, w (x.chain y) = w x + w y)
    (map : ∀ x : Ledger σ ν, w { x with closed := false } = w x) (kept : Kept fun _ : ι => Ledger σ ν)
    (call : Call τ σ ν) :
    total w (ledgers.after kept call) + weight w (takenOut kept call) = total w kept + weight w (putIn kept call) := by
  cases call with
  | create => simp [Keeping.after, total_append, takenOut, putIn, ledgers]
  | onClose n action =>
    have changed := total_change w kept n fun x => { x with actions := x.actions ++ [(kept.length, action)] }
    simp only [Keeping.after, total_append, takenOut, putIn, ledgers, weight_none]
    omega
  | map n type target f =>
    simp only [Keeping.after, takenOut, putIn]
    split
    · next x found =>
      have removed := total_remove w kept n
      have weighs : weight w (some ⟨type, x⟩) = weight w (some (⟨target, { x with closed := false }⟩ : (_ : ι) × _)) :=
        (map x).symm
      rw [ofType_eq_some.mp found] at removed
      simp only [total_append, ledgers, weight_none]
      omega
    · simp [total_append]
  | chain type first second =>
    simp only [Keeping.after, takenOut, putIn]
    split
    · next x y found found' =>
      have removed := total_remove w kept first
      have removed' := total_remove w (remove first kept) second
      have weighs : weight w (some (⟨type, x.chain y⟩ : (_ : ι) × _)) =
        weight w (some (⟨type, x⟩ : (_ : ι) × _)) + weight w (some (⟨type, y⟩ : (_ : ι) × _)) := chain x y
      rw [ofType_eq_some.mp found] at removed
      rw [ofType_eq_some.mp found'] at removed'
      simp only [total_append, ledgers, weight_none]
      omega
    · simp [total_append]
  | next n =>
    have changed := total_change w kept n fun x => x
    have same : ((slot kept n).map fun x => (⟨x.1, x.2⟩ : (_ : ι) × Ledger σ ν)) = slot kept n := Option.map_id'
    rw [same] at changed
    simp only [Keeping.after, total_append, takenOut, putIn, ledgers, weight_none]
    omega
  | close n =>
    have changed := total_change w kept n Ledger.close
    simp only [Keeping.after, total_append, takenOut, putIn, ledgers, weight_none]
    omega
  | drop n =>
    have removed := total_remove w kept n
    simp only [Keeping.after, total_append, takenOut, putIn, weight_none]
    omega

end
end

end StreamPool
end TestEngine

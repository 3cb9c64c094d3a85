import Mathlib.Data.List.Induction
import TestEngine.Proofs.Marks

/-! Programs over streams. A stream goes by the number of the call that made it, and is gone once a call has made
another of it. What else is kept for each stream, however it is kept, goes from call to call in the same way. -/
namespace TestEngine.StreamPool
variable {ι : Type} {τ : ι → Type} {σ ν : Type} {P Q : ι → Type}

inductive Call (τ : ι → Type) (σ ν : Type) where
  | create (type : ι) (source : Source σ ν (τ type))
  | onClose (stream : Nat) (action : Action σ ν Unit)
  | map (stream : Nat) (type target : ι) (f : τ type → Draw σ ν (τ target))
  | chain (type : ι) (first second : Nat)
  | next (stream : Nat)
  | close (stream : Nat)
  | drop (stream : Nat)

/-- The streams that are gone behind a call. -/
def Call.taken : Call τ σ ν → List Nat
  | .map n _ _ _ | .drop n => [n]
  | .chain _ first second => [first, second]
  | _ => []

/-- One place for each call, empty if the call made no stream or the stream is gone. -/
abbrev Kept (P : ι → Type) : Type := List (Option ((type : ι) × P type))

def slot (kept : Kept P) (n : Nat) : Option ((type : ι) × P type) := kept[n]?.join

def remove (n : Nat) (kept : Kept P) : Kept P := kept.set n none

def change (f : {type : ι} → P type → P type) (n : Nat) (kept : Kept P) : Kept P :=
  kept.set n ((slot kept n).map fun x => ⟨x.1, f x.2⟩)

def ofType [DecidableEq ι] (type : ι) : Option ((type : ι) × P type) → Option (P type)
  | some ⟨actual, x⟩ => if same : actual = type then some (same ▸ x) else none
  | none => none

theorem slot_of_le {kept : Kept P} {n : Nat} (beyond : kept.length ≤ n) : slot kept n = none := by
  simp [slot, List.getElem?_eq_none beyond]

theorem lt_of_slot {kept : Kept P} {n : Nat} {x : (type : ι) × P type} (there : slot kept n = some x) :
    n < kept.length := by
  by_cases inside : n < kept.length
  · exact inside
  · rw [slot_of_le (Nat.le_of_not_lt inside)] at there
    contradiction

theorem slot_append (kept : Kept P) (made : Option ((type : ι) × P type)) (n : Nat) :
    slot (kept ++ [made]) n = if n = kept.length then made else slot kept n := by
  unfold slot
  rcases Nat.lt_trichotomy n kept.length with inside | rfl | beyond
  · rw [List.getElem?_append_left inside, if_neg (by omega)]
  · simp
  · rw [if_neg (by omega), List.getElem?_eq_none (by simp; omega), List.getElem?_eq_none (by omega)]

theorem slot_remove (n m : Nat) (kept : Kept P) :
    slot (remove n kept) m = if m = n then none else slot kept m := by
  by_cases same : m = n
  · subst same
    by_cases inside : m < kept.length
    · simp [remove, slot, inside]
    · rw [if_pos rfl, slot_of_le (by simpa [remove] using inside)]
  · simp [remove, slot, List.getElem?_set_ne (Ne.symm same), same]

theorem slot_change (f : {type : ι} → P type → P type) (n m : Nat) (kept : Kept P) :
    slot (change f n kept) m = if m = n then (slot kept n).map (fun x => ⟨x.1, f x.2⟩) else slot kept m := by
  by_cases same : m = n
  · subst same
    by_cases inside : m < kept.length
    · simp [change, slot, inside]
    · have beyond := Nat.le_of_not_lt inside
      rw [if_pos rfl, slot_of_le beyond, slot_of_le (by simpa [change] using beyond)]
      rfl
  · simp [change, slot, List.getElem?_set_ne (Ne.symm same), same]

@[simp] theorem length_remove (n : Nat) (kept : Kept P) : (remove n kept).length = kept.length := by simp [remove]

@[simp] theorem length_change (f : {type : ι} → P type → P type) (n : Nat) (kept : Kept P) :
    (change f n kept).length = kept.length := by
  simp [change]

theorem changed_or_same {kept : Kept P} {n : Nat} (inside : n < kept.length) (f : {type : ι} → P type → P type)
    (m : Nat) (made : Option ((type : ι) × P type)) :
    (n = m ∧ slot (change f m kept ++ [made]) n = (slot kept n).map fun x => ⟨x.1, f x.2⟩) ∨
      slot (change f m kept ++ [made]) n = slot kept n := by
  rw [slot_append, length_change, if_neg (by omega), slot_change]
  by_cases same : n = m
  · subst same
    exact .inl ⟨rfl, if_pos rfl⟩
  · exact .inr (if_neg same)

theorem removed_or_same {kept : Kept P} {n : Nat} (inside : n < kept.length) (m : Nat)
    (made : Option ((type : ι) × P type)) :
    (n = m ∧ slot (remove m kept ++ [made]) n = none) ∨ slot (remove m kept ++ [made]) n = slot kept n := by
  rw [slot_append, length_remove, if_neg (by omega), slot_remove]
  by_cases same : n = m
  · exact .inl ⟨same, if_pos same⟩
  · exact .inr (if_neg same)

theorem ofType_eq_some [DecidableEq ι] {type : ι} {held : Option ((type : ι) × P type)} {x : P type} :
    ofType type held = some x ↔ held = some ⟨type, x⟩ := by
  match held with
  | none => simp [ofType]
  | some ⟨actual, y⟩ =>
    by_cases same : actual = type
    · subst same
      simp [ofType]
    · simp only [ofType, same, dite_false, Option.some.injEq, Sigma.mk.injEq, false_and, reduceCtorEq]

/-- A way of keeping something for each stream. Making a stream and giving it a close action are told the number
of the call. -/
structure Keeping (τ : ι → Type) (σ ν : Type) (P : ι → Type) where
  create : Nat → {type : ι} → Source σ ν (τ type) → P type
  onClose : Nat → Action σ ν Unit → {type : ι} → P type → P type
  map : {type target : ι} → (τ type → Draw σ ν (τ target)) → P type → P target
  chain : {type : ι} → P type → P type → P type
  next : {type : ι} → P type → P type
  close : {type : ι} → P type → P type

namespace Keeping
variable [DecidableEq ι]

/-- A call for a stream that is gone, or of another type, comes to nothing. -/
def after (k : Keeping τ σ ν P) (kept : Kept P) : Call τ σ ν → Kept P
  | .create type source => kept ++ [some ⟨type, k.create kept.length source⟩]
  | .onClose n action => change (k.onClose kept.length action) n kept ++ [none]
  | .map n type target f =>
    match ofType type (slot kept n) with
    | some x => remove n kept ++ [some ⟨target, k.map f x⟩]
    | none => kept ++ [none]
  | .chain type a b =>
    match ofType type (slot kept a), ofType type (slot (remove a kept) b) with
    | some x, some y => remove b (remove a kept) ++ [some ⟨type, k.chain x y⟩]
    | _, _ => kept ++ [none]
  | .next n => change k.next n kept ++ [none]
  | .close n => change k.close n kept ++ [none]
  | .drop n => remove n kept ++ [none]

def behind (k : Keeping τ σ ν P) (calls : List (Call τ σ ν)) : Kept P := calls.foldl k.after []

@[simp] theorem length_after (k : Keeping τ σ ν P) (kept : Kept P) (call : Call τ σ ν) :
    (k.after kept call).length = kept.length + 1 := by
  unfold after
  repeat' split
  all_goals simp

theorem behind_concat (k : Keeping τ σ ν P) (calls : List (Call τ σ ν)) (call : Call τ σ ν) :
    k.behind (calls ++ [call]) = k.after (k.behind calls) call := by
  simp [behind]

@[simp] theorem length_behind (k : Keeping τ σ ν P) (calls : List (Call τ σ ν)) :
    (k.behind calls).length = calls.length := by
  induction calls using List.reverseRecOn with
  | nil => rfl
  | append_singleton calls call ih => simp [behind_concat, ih]

section
variable {k : Keeping τ σ ν P} {calls : List (Call τ σ ν)}

theorem slot_onClose {n : Nat} {type : ι} {x : P type} (there : slot (k.behind calls) n = some ⟨type, x⟩)
    (action : Action σ ν Unit) :
    slot (k.behind (calls ++ [.onClose n action])) n = some ⟨type, k.onClose calls.length action x⟩ := by
  have before : n ≠ calls.length := by
    have inside := lt_of_slot there
    rw [length_behind] at inside
    omega
  simp [behind_concat, after, slot_append, before, slot_change, there]

theorem slot_map {n : Nat} {type target : ι} {x : P type} (there : slot (k.behind calls) n = some ⟨type, x⟩)
    (f : τ type → Draw σ ν (τ target)) :
    slot (k.behind (calls ++ [.map n type target f])) calls.length = some ⟨target, k.map f x⟩ := by
  simp [behind_concat, after, slot_append, ofType_eq_some.mpr there]

theorem slot_chain {first second : Nat} {type : ι} {x y : P type} (distinct : first ≠ second)
    (there : slot (k.behind calls) first = some ⟨type, x⟩) (there' : slot (k.behind calls) second = some ⟨type, y⟩) :
    slot (k.behind (calls ++ [.chain type first second])) calls.length = some ⟨type, k.chain x y⟩ := by
  have rest : ofType type (slot (remove first (k.behind calls)) second) = some y := by
    rw [slot_remove, if_neg distinct.symm, there', ofType_eq_some]
  simp [behind_concat, after, slot_append, ofType_eq_some.mpr there, rest]

end

/-- What a call does to a stream made before it. -/
theorem slot_after (k : Keeping τ σ ν P) {kept : Kept P} {n : Nat} (inside : n < kept.length) (call : Call τ σ ν) :
    let held := slot kept n
    let now := slot (k.after kept call) n
    now = held ∨ (now = none ∧ n ∈ call.taken) ∨
      (∃ action, call = .onClose n action ∧ now = held.map fun x => ⟨x.1, k.onClose kept.length action x.2⟩) ∨
      (call = .next n ∧ now = held.map fun x => ⟨x.1, k.next x.2⟩) ∨
      call = .close n ∧ now = held.map fun x => ⟨x.1, k.close x.2⟩ := by
  have before : n ≠ kept.length := by omega
  cases call with
  | create => simp [after, slot_append, before]
  | onClose m action =>
    rcases changed_or_same inside (k.onClose kept.length action) m none with ⟨rfl, now⟩ | now
    · exact .inr (.inr (.inl ⟨action, rfl, now⟩))
    · exact .inl now
  | map m type target f =>
    simp only [after]
    split
    · next x _ =>
      rcases removed_or_same inside m (some ⟨target, k.map f x⟩) with ⟨rfl, now⟩ | now
      · exact .inr (.inl ⟨now, List.mem_singleton_self _⟩)
      · exact .inl now
    · simp [slot_append, before]
  | chain type first second =>
    simp only [after]
    split
    · simp only [slot_append, length_remove, if_neg before, slot_remove]
      by_cases same : n = second
      · exact .inr (.inl ⟨if_pos same, by simp [Call.taken, same]⟩)
      · by_cases same' : n = first
        · exact .inr (.inl ⟨by simp [same'], by simp [Call.taken, same']⟩)
        · exact .inl (by simp [same, same'])
    · simp [slot_append, before]
  | next m =>
    rcases changed_or_same inside k.next m none with ⟨rfl, now⟩ | now
    · exact .inr (.inr (.inr (.inl ⟨rfl, now⟩)))
    · exact .inl now
  | close m =>
    rcases changed_or_same inside k.close m none with ⟨rfl, now⟩ | now
    · exact .inr (.inr (.inr (.inr ⟨rfl, now⟩)))
    · exact .inl now
  | drop m =>
    rcases removed_or_same inside m none with ⟨rfl, now⟩ | now
    · exact .inr (.inl ⟨now, List.mem_singleton_self _⟩)
    · exact .inl now

/-- What giving, drawing and closing keep is kept of a stream for as long as it is there. -/
structure Stays (k : Keeping τ σ ν P) (S : {type : ι} → P type → Prop) : Prop where
  onClose : ∀ (n : Nat) (action : Action σ ν Unit) {type : ι} {x : P type}, S x → S (k.onClose n action x)
  next : ∀ {type : ι} {x : P type}, S x → S (k.next x)
  close : ∀ {type : ι} {x : P type}, S x → S (k.close x)

namespace Stays
variable {k : Keeping τ σ ν P} {S : {type : ι} → P type → Prop}

theorem after (stays : Stays k S) {kept : Kept P} {n : Nat} (inside : n < kept.length)
    (holds : ∀ x, slot kept n = some x → S x.2) (call : Call τ σ ν) :
    ∀ x, slot (k.after kept call) n = some x → S x.2 := by
  intro x there
  rcases k.slot_after inside call with now | ⟨now, _⟩ | ⟨action, _, now⟩ | ⟨_, now⟩ | ⟨_, now⟩ <;> rw [now] at there
  · exact holds x there
  · contradiction
  · obtain ⟨y, found, rfl⟩ := Option.map_eq_some_iff.mp there
    exact stays.onClose _ action (holds y found)
  · obtain ⟨y, found, rfl⟩ := Option.map_eq_some_iff.mp there
    exact stays.next (holds y found)
  · obtain ⟨y, found, rfl⟩ := Option.map_eq_some_iff.mp there
    exact stays.close (holds y found)

theorem behind (stays : Stays k S) {calls : List (Call τ σ ν)} {n : Nat} (inside : n < calls.length)
    (holds : ∀ x, slot (k.behind calls) n = some x → S x.2) (more : List (Call τ σ ν)) :
    ∀ x, slot (k.behind (calls ++ more)) n = some x → S x.2 := by
  induction more using List.reverseRecOn with
  | nil => simpa using holds
  | append_singleton more call ih =>
    rw [← List.append_assoc, behind_concat]
    exact stays.after (by simp; omega) ih call

end Stays

theorem there_after (k : Keeping τ σ ν P) {kept : Kept P} {n : Nat} (inside : n < kept.length) {call : Call τ σ ν}
    (untaken : n ∉ call.taken) (there : (slot kept n).isSome) : (slot (k.after kept call) n).isSome := by
  rcases k.slot_after inside call with now | ⟨_, taken⟩ | ⟨_, _, now⟩ | ⟨_, now⟩ | ⟨_, now⟩
  · rwa [now]
  · contradiction
  all_goals rwa [now, Option.isSome_map]

end Keeping

def streams : Keeping τ σ ν fun type => Stream σ ν (τ type) where
  create _ _ source := { source }
  onClose _ action _ s := s.addClose action
  map f s := s.bind f
  chain := Stream.chain
  next s := (s.next.map Prod.snd).getD s
  close := Stream.close

theorem streams_stay_closed : Keeping.Stays (τ := τ) (σ := σ) (ν := ν) streams fun s => s.closed = true where
  onClose _ _ _ _ closed := closed
  next {_ s} closed := by simp [streams, Stream.next, closed]
  close {_ s} closed := by simp [streams, Stream.close, closed]

/-- What a call answers at once: an element where one is drawn, a fault, or nothing. What the close actions of a
dropped stream raise is lost. -/
def effect (pool : Kept fun type => Stream σ ν (τ type)) : Call τ σ ν → Action σ ν (Option ((type : ι) × τ type))
  | .next n =>
    match slot pool n with
    | some ⟨type, s⟩ => fun user =>
      match s.next with
      | some (d, _) => (d.item.outcome.map fun a => some ⟨type, a⟩, d.effect user)
      | none => (.ok none, [], user)
    | none => .pure none
  | .close n =>
    match slot pool n with
    | some ⟨_, s⟩ => fun user => ((s.release user).1.map fun _ => none, (s.release user).2)
    | none => .pure none
  | .drop n =>
    match slot pool n with
    | some ⟨_, s⟩ => fun user => (.ok none, (s.release user).2)
    | none => .pure none
  | _ => .pure none

/-- A program as far as it has run. -/
structure Course (τ : ι → Type) (σ ν : Type) where
  pool : Kept fun type => Stream σ ν (τ type)
  user : σ
  answers : List (Except Fault (Option ((type : ι) × τ type)) × List ν)

namespace Course
variable [DecidableEq ι]

def proceed (c : Course τ σ ν) (call : Call τ σ ν) : Course τ σ ν :=
  let (outcome, notes, user) := effect c.pool call c.user
  { pool := streams.after c.pool call, user, answers := c.answers ++ [(outcome, notes)] }

/-- All notes left so far, in order. -/
def notes (c : Course τ σ ν) : List ν := c.answers.flatMap Prod.snd

end Course

section
variable [DecidableEq ι]

def course (calls : List (Call τ σ ν)) (user : σ) : Course τ σ ν :=
  calls.foldl Course.proceed { pool := [], user, answers := [] }

theorem course_concat (calls : List (Call τ σ ν)) (call : Call τ σ ν) (user : σ) :
    course (calls ++ [call]) user = (course calls user).proceed call := by
  simp [course]

theorem course_pool (calls : List (Call τ σ ν)) (user : σ) : (course calls user).pool = streams.behind calls := by
  induction calls using List.reverseRecOn with
  | nil => rfl
  | append_singleton calls call ih => rw [course_concat, Keeping.behind_concat, ← ih]; rfl

theorem notes_concat (calls : List (Call τ σ ν)) (call : Call τ σ ν) (user : σ) :
    (course (calls ++ [call]) user).notes =
      (course calls user).notes ++ (effect (streams.behind calls) call (course calls user).user).2.1 := by
  rw [course_concat, ← course_pool calls user]
  simp [Course.notes, Course.proceed]

end

/-- What a mark tells of: that the close action given by a call is run, or that the source a call brought is drawn
from. -/
inductive Mark where
  | closing (call : Nat)
  | drawing (call : Nat)
  deriving DecidableEq

namespace Mark

def closing? : Mark → Option Nat
  | closing n => some n
  | drawing _ => none

def drawing? : Mark → Option Nat
  | drawing n => some n
  | closing _ => none

end Mark

/-- The call with its number, where what it brings leaves marks of it. -/
def Call.marked (n : Nat) : Call τ σ ν → Call τ σ (Mark ⊕ ν)
  | .create type source => .create type (source.marked [.drawing n])
  | .onClose stream action => .onClose stream (action.marked (.closing n))
  | .map stream type target f => .map stream type target fun a => (f a).marked []
  | .chain type first second => .chain type first second
  | .next stream => .next stream
  | .close stream => .close stream
  | .drop stream => .drop stream

def numbered (calls : List (Call τ σ ν)) : List (Call τ σ (Mark ⊕ ν)) := calls.mapIdx Call.marked

theorem numbered_concat (calls : List (Call τ σ ν)) (call : Call τ σ ν) :
    numbered (calls ++ [call]) = numbered calls ++ [call.marked calls.length] := by
  simp [numbered]

@[simp] theorem length_numbered (calls : List (Call τ σ ν)) : (numbered calls).length = calls.length := by
  simp [numbered]

/-- What two ways keep of one stream, or of none. -/
inductive Alike (R : {type : ι} → P type → Q type → Prop) :
    Option ((type : ι) × P type) → Option ((type : ι) × Q type) → Prop where
  | none : Alike R none none
  | some {type : ι} {x : P type} {y : Q type} : R x y → Alike R (some ⟨type, x⟩) (some ⟨type, y⟩)

namespace Alike
variable {R : {type : ι} → P type → Q type → Prop} {kept : Kept P} {other : Kept Q}
  {held : Option ((type : ι) × P type)} {known : Option ((type : ι) × Q type)}

theorem ofType [DecidableEq ι] (alike : Alike R held known) (type : ι) :
    (StreamPool.ofType type held = Option.none ∧ StreamPool.ofType type known = Option.none) ∨
      ∃ x y, StreamPool.ofType type held = Option.some x ∧ StreamPool.ofType type known = Option.some y ∧ R x y := by
  cases alike with
  | none => exact .inl ⟨rfl, rfl⟩
  | @some actual x y related =>
    by_cases same : actual = type
    · subst same
      exact .inr ⟨x, y, ofType_eq_some.mpr rfl, ofType_eq_some.mpr rfl, related⟩
    · simp [StreamPool.ofType, same]

theorem map {R' : {type : ι} → P type → Q type → Prop} (alike : Alike R held known)
    {f : {type : ι} → P type → P type} {g : {type : ι} → Q type → Q type}
    (keeps : ∀ {type : ι} {x : P type} {y : Q type}, R x y → R' (f x) (g y)) :
    Alike R' (held.map fun x => (⟨x.1, f x.2⟩ : (type : ι) × P type))
      (known.map fun y => (⟨y.1, g y.2⟩ : (type : ι) × Q type)) := by
  cases alike with
  | none => exact .none
  | some related => exact .some (keeps related)

theorem append (same : kept.length = other.length) (alike : ∀ n, Alike R (slot kept n) (slot other n))
    (last : Alike R held known) (n : Nat) : Alike R (slot (kept ++ [held]) n) (slot (other ++ [known]) n) := by
  rw [slot_append, slot_append, same]
  split
  · exact last
  · exact alike n

theorem remove (alike : ∀ n, Alike R (slot kept n) (slot other n)) (m n : Nat) :
    Alike R (slot (StreamPool.remove m kept) n) (slot (StreamPool.remove m other) n) := by
  rw [slot_remove, slot_remove]
  split
  · exact .none
  · exact alike n

theorem change (alike : ∀ n, Alike R (slot kept n) (slot other n)) {f : {type : ι} → P type → P type}
    {g : {type : ι} → Q type → Q type} (keeps : ∀ {type : ι} {x : P type} {y : Q type}, R x y → R (f x) (g y))
    (m n : Nat) : Alike R (slot (StreamPool.change f m kept) n) (slot (StreamPool.change g m other) n) := by
  rw [slot_change, slot_change]
  split
  · exact (alike m).map keeps
  · exact alike n

end Alike

/-- What is kept tells of the streams that the marked calls make. -/
structure Follows (k : Keeping τ σ ν P) (R : {type : ι} → Stream σ (Mark ⊕ ν) (τ type) → P type → Prop) : Prop where
  create : ∀ (n : Nat) {type : ι} (source : Source σ ν (τ type)),
    R { source := source.marked [.drawing n] } (k.create n source)
  onClose : ∀ (n : Nat) (action : Action σ ν Unit) {type : ι} {s : Stream σ (Mark ⊕ ν) (τ type)} {x : P type},
    R s x → R (s.addClose (action.marked (.closing n))) (k.onClose n action x)
  map : ∀ {type target : ι} (f : τ type → Draw σ ν (τ target)) {s : Stream σ (Mark ⊕ ν) (τ type)} {x : P type},
    R s x → R (s.bind fun a => (f a).marked []) (k.map f x)
  chain : ∀ {type : ι} {s t : Stream σ (Mark ⊕ ν) (τ type)} {x y : P type}, R s x → R t y →
    R (s.chain t) (k.chain x y)
  next : ∀ {type : ι} {s : Stream σ (Mark ⊕ ν) (τ type)} {x : P type}, R s x →
    R ((s.next.map Prod.snd).getD s) (k.next x)
  close : ∀ {type : ι} {s : Stream σ (Mark ⊕ ν) (τ type)} {x : P type}, R s x → R s.close (k.close x)

namespace Follows
variable [DecidableEq ι] {k : Keeping τ σ ν P} {R : {type : ι} → Stream σ (Mark ⊕ ν) (τ type) → P type → Prop}

theorem after (follows : Follows k R) {pool : Kept fun type => Stream σ (Mark ⊕ ν) (τ type)} {kept : Kept P}
    (same : pool.length = kept.length) (alike : ∀ n, Alike R (slot pool n) (slot kept n)) (call : Call τ σ ν)
    (n : Nat) : Alike R (slot (streams.after pool (call.marked kept.length)) n) (slot (k.after kept call) n) := by
  cases call with
  | create type source => exact Alike.append same alike (.some (follows.create _ source)) n
  | onClose stream action =>
    exact Alike.append (by simpa using same) (Alike.change alike (follows.onClose _ action) stream) .none n
  | map stream type target f =>
    rcases (alike stream).ofType type with ⟨missing, missing'⟩ | ⟨s, x, found, found', related⟩
    · simpa only [Call.marked, Keeping.after, missing, missing'] using Alike.append same alike .none n
    · simp only [Call.marked, Keeping.after, found, found']
      exact Alike.append (by simpa using same) (Alike.remove alike stream) (.some (follows.map f related)) n
  | chain type first second =>
    simp only [Call.marked, Keeping.after]
    rcases (alike first).ofType type with ⟨missing, missing'⟩ | ⟨s, x, found, found', related⟩
    · simpa only [missing, missing'] using Alike.append same alike .none n
    · have rest := Alike.remove alike first
      rcases (rest second).ofType type with ⟨missing, missing'⟩ | ⟨t, y, other, other', related'⟩
      · simpa only [found, found', missing, missing'] using Alike.append same alike .none n
      · simp only [found, found', other, other']
        exact Alike.append (by simpa using same) (Alike.remove rest second)
          (.some (follows.chain related related')) n
  | next stream => exact Alike.append (by simpa using same) (Alike.change alike follows.next stream) .none n
  | close stream => exact Alike.append (by simpa using same) (Alike.change alike follows.close stream) .none n
  | drop stream => exact Alike.append (by simpa using same) (Alike.remove alike stream) .none n

theorem behind (follows : Follows k R) (calls : List (Call τ σ ν)) :
    ∀ n, Alike R (slot (streams.behind (numbered calls)) n) (slot (k.behind calls) n) := by
  induction calls using List.reverseRecOn with
  | nil => exact fun _ => .none
  | append_singleton calls call ih =>
    intro n
    rw [numbered_concat, Keeping.behind_concat, Keeping.behind_concat]
    simpa using follows.after (by simp) ih call n

end Follows

theorem streams_follow : Follows (τ := τ) (σ := σ) (ν := ν) streams fun s plain => s.unmarked = plain where
  create n _ source := by
    simp only [streams, Stream.unmarked, Source.unmarked_marked, List.map_nil]
  onClose n action _ s x related := by
    subst related
    simp only [streams, Stream.unmarked_addClose, Action.unmarked_marked]
  map f s x related := by
    subst related
    simp only [streams, Stream.unmarked_bind, Draw.unmarked_marked]
  chain related related' := by
    subst related related'
    exact Stream.unmarked_chain _ _
  next {_ s _} related := by
    subst related
    simp only [streams, Stream.unmarked_next]
    cases s.next <;> rfl
  close related := by
    subst related
    exact Stream.unmarked_close _

section
variable [DecidableEq ι]

theorem unmarked_effect (calls : List (Call τ σ ν)) (call : Call τ σ ν) :
    (effect (streams.behind (numbered calls)) (call.marked calls.length)).unmarked =
      effect (streams.behind calls) call := by
  cases call with
  | create | onClose | map | chain => rfl
  | next n =>
    have alike := streams_follow.behind calls n
    simp only [Call.marked, effect]
    generalize slot (streams.behind (numbered calls)) n = held, slot (streams.behind calls) n = known at alike ⊢
    cases alike with
    | none => rfl
    | @some _ s _ related =>
      subst related
      funext user
      simp only [Action.unmarked, Stream.unmarked_next]
      cases s.next <;> rfl
  | close n | drop n =>
    have alike := streams_follow.behind calls n
    simp only [Call.marked, effect]
    generalize slot (streams.behind (numbered calls)) n = held, slot (streams.behind calls) n = known at alike ⊢
    cases alike with
    | none => rfl
    | @some _ s _ related =>
      subst related
      simp only [← Stream.unmarked_release]
      rfl

/-- With marks the program runs as it does without. -/
theorem course_unmarked (calls : List (Call τ σ ν)) (user : σ) :
    (course (numbered calls) user).user = (course calls user).user ∧
      (course (numbered calls) user).answers.map (fun answer => (answer.1, plain answer.2)) =
        (course calls user).answers := by
  induction calls using List.reverseRecOn with
  | nil => exact ⟨rfl, rfl⟩
  | append_singleton calls call ih =>
    have last := congrFun (unmarked_effect calls call) (course calls user).user
    simp only [Action.unmarked] at last
    rw [numbered_concat, course_concat, course_concat]
    simp only [Course.proceed, course_pool, List.map_append, ih, ← last, List.map_cons, List.map_nil, true_and]

end

end TestEngine.StreamPool

import TestEngine.Proofs.StreamLedgers

/-! What closing a stream ends. The stream yields nothing more and nothing is drawn from its source, until another
stream is made of it: that one is open, and draws on where the closed one stopped. -/
namespace TestEngine

namespace Source
variable {σ ν α β : Type} {first : Source σ ν α} {d : Draw σ ν α} {rest : Source σ ν α}

theorem next?_bind (source : Source σ ν α) (f : α → Draw σ ν β) :
    (source.bind f).next? = source.next?.map fun next => (next.1.bind f, next.2.bind f) := by
  cases source with
  | endless draw => rfl
  | listed draws => cases draws <;> rfl

theorem next?_append (next : first.next? = some (d, rest)) (second : Source σ ν α) :
    ∃ others, (first.append second).next? = some (d, others) := by
  cases first with
  | endless draw =>
    cases next
    exact ⟨_, rfl⟩
  | listed draws =>
    cases draws with
    | nil => contradiction
    | cons =>
      cases next
      cases second <;> exact ⟨_, rfl⟩

theorem append_of_next?_none (ended : first.next? = none) (second : Source σ ν α) : first.append second = second := by
  cases first with
  | endless => contradiction
  | listed draws =>
    cases draws with
    | cons => contradiction
    | nil => cases second <;> simp [append]

end Source

namespace StreamPool
variable {ι : Type} {τ : ι → Type} {σ ν : Type}

def Call.parts : Call τ σ ν → List Nat
  | .map n _ _ _ => [n]
  | .chain _ first second => [first, second]
  | _ => []

def Ledger.uses (k : Nat) (x : Ledger σ ν) : Nat := x.sources.count k

theorem uses_pos {kept : Kept fun _ : ι => Ledger σ ν} {n k : Nat} {x : (_ : ι) × Ledger σ ν}
    (there : slot kept n = some x) (member : k ∈ x.2.sources) : 0 < weight (Ledger.uses k) (slot kept n) := by
  simpa [there, weight, Ledger.uses] using List.count_pos_iff.mpr member

theorem effect_next {pool : Kept fun type => Stream σ ν (τ type)} {n : Nat} {type : ι} {s : Stream σ ν (τ type)}
    {d : Draw σ ν (τ type)} {rest : Source σ ν (τ type)} (there : slot pool n = some ⟨type, s⟩)
    (opened : s.closed = false) (next : s.source.next? = some (d, rest)) (now : σ) :
    effect pool (.next n) now = (d.item.outcome.map fun a => some ⟨type, a⟩, d.effect now) := by
  simp [effect, there, Stream.next, opened, next]

theorem effect_next_closed {pool : Kept fun type => Stream σ ν (τ type)} {n : Nat}
    (closed : ∀ x, slot pool n = some x → x.2.closed = true) (now : σ) :
    effect pool (.next n) now = (.ok none, [], now) := by
  simp only [effect]
  cases there : slot pool n with
  | none => rfl
  | some x => simp [Stream.next, closed x there]

theorem ledgers_stay_shut (k : Nat) : Keeping.Stays (τ := τ) (σ := σ) (ν := ν) ledgers fun x =>
    x.closed = true ∧ k ∈ x.sources where
  onClose _ _ _ _ shut := shut
  next shut := shut
  close {_ x} shut := by simpa [ledgers, Ledger.close, shut.1] using shut

/-- The source belongs to that stream, which is closed, or to none. -/
def Shut (kept : Kept fun _ : ι => Ledger σ ν) (n k : Nat) : Prop :=
  (∃ x, slot kept n = some x ∧ x.2.closed = true ∧ k ∈ x.2.sources) ∨ total (Ledger.uses k) kept = 0

theorem Shut.undrawable {kept : Kept fun _ : ι => Ledger σ ν} {n k : Nat} (shut : Shut kept n k)
    (sole : total (Ledger.uses k) kept ≤ 1) (call : Call τ σ ν) : k ∉ drawable kept call := by
  intro drawn
  cases call with
  | create | onClose | map | chain | close | drop => simp [drawable] at drawn
  | next m =>
    simp only [drawable] at drawn
    cases other : slot kept m with
    | none => simp [other] at drawn
    | some y =>
      cases opened : y.2.closed with
      | true => simp [other, opened] at drawn
      | false =>
        simp only [other, opened, Bool.false_eq_true, if_false] at drawn
        have weighs := uses_pos other drawn
        rcases shut with ⟨x, there, closed, member⟩ | unused
        · by_cases same : m = n
          · subst same
            rw [there] at other
            cases other
            rw [closed] at opened
            contradiction
          · have weighs' := uses_pos there member
            have both := weights_le_total (Ledger.uses k) kept same
            omega
        · have bound := weight_le_total (Ledger.uses k) kept m
          omega

section
variable [DecidableEq ι]

/-- The sources that the elements of a stream come from, by the numbers of the calls that brought them. -/
def sources (calls : List (Call τ σ ν)) (n : Nat) : List Nat :=
  ((slot (ledgers.behind calls) n).map fun x => x.2.sources).getD []

theorem uses_after (kept : Kept fun _ : ι => Ledger σ ν) (call : Call τ σ ν) (k : Nat) :
    total (Ledger.uses k) (ledgers.after kept call) ≤
      total (Ledger.uses k) kept + if k = kept.length then 1 else 0 := by
  have balance := total_after (Ledger.uses k) (by simp [Ledger.uses, Ledger.chain]) (fun _ => rfl) kept call
  have put : weight (Ledger.uses k) (putIn kept call) ≤
      weight (Ledger.uses k) (takenOut kept call) + if k = kept.length then 1 else 0 := by
    cases call with
    | create =>
      by_cases new : k = kept.length
      · simp [putIn, weight, Ledger.uses, new]
      · simp [putIn, weight, Ledger.uses, new, Ne.symm new]
    | onClose n action =>
      simp only [putIn, takenOut]
      cases slot kept n with
      | none => simp [weight]
      | some x => exact Nat.le_add_right _ _
    | close n =>
      simp only [putIn, takenOut]
      cases slot kept n with
      | none => simp [weight]
      | some x => cases closed : x.2.closed <;> simp [weight, Ledger.uses, Ledger.close, closed]
    | map | chain | next | drop => simp [putIn, weight]
  omega

theorem uses_behind (calls : List (Call τ σ ν)) (k : Nat) :
    total (Ledger.uses k) (ledgers.behind calls) ≤ if k < calls.length then 1 else 0 := by
  induction calls using List.reverseRecOn with
  | nil => exact Nat.zero_le _
  | append_singleton calls call ih =>
    have step := uses_after (ledgers.behind calls) call k
    rw [Keeping.behind_concat, List.length_append]
    simp only [Keeping.length_behind, List.length_singleton] at step ⊢
    split at step <;> split at ih <;> split <;> omega

theorem Shut.after {kept : Kept fun _ : ι => Ledger σ ν} {n k : Nat} (shut : Shut kept n k) (old : k < kept.length)
    (sole : total (Ledger.uses k) kept ≤ 1) {call : Call τ σ ν} (apart : n ∉ call.parts) :
    Shut (ledgers.after kept call) n k := by
  have step := uses_after kept call k
  rw [if_neg (by omega)] at step
  rcases shut with ⟨x, there, closed, member⟩ | unused
  · have inside := lt_of_slot there
    by_cases taken : n ∈ call.taken
    · -- The stream is dropped, and the source with it.
      right
      have weighs := uses_pos there member
      cases call with
      | create | onClose | next | close => simp [Call.taken] at taken
      | map | chain => exact absurd taken apart
      | drop m =>
        rw [Call.taken, List.mem_singleton] at taken
        subst taken
        have removed := total_remove (Ledger.uses k) kept n
        simp only [Keeping.after, total_append, weight_none]
        omega
    · left
      have still := ledgers.there_after inside taken (by rw [there]; rfl)
      obtain ⟨y, now⟩ := Option.isSome_iff_exists.mp still
      have keeps := (ledgers_stay_shut k).after inside (S := fun x => x.closed = true ∧ k ∈ x.sources)
        (fun z found => by
          rw [there] at found
          cases found
          exact ⟨closed, member⟩) call
      exact ⟨y, now, keeps y now⟩
  · right
    omega

/-- Calls that make no other stream of the closed one leave its sources alone. -/
theorem count_drawn {calls : List (Call τ σ ν)} {n k : Nat} (shut : Shut (ledgers.behind calls) n k)
    (old : k < calls.length) (user : σ) {more : List (Call τ σ ν)} (apart : ∀ call ∈ more, n ∉ call.parts) :
    Shut (ledgers.behind (calls ++ more)) n k ∧
      (drawn (calls ++ more) user).count k = (drawn calls user).count k := by
  induction more using List.reverseRecOn with
  | nil => simpa using shut
  | append_singleton more call ih =>
    obtain ⟨shut, same⟩ := ih fun call member => apart call (List.mem_append_left _ member)
    have sole : total (Ledger.uses k) (ledgers.behind (calls ++ more)) ≤ 1 := by
      have once := uses_behind (calls ++ more) k
      split at once <;> omega
    obtain ⟨last, drawn, few⟩ := drawn_concat (calls ++ more) call user
    have unmarked : last.count k = 0 := List.count_eq_zero.mpr fun member => shut.undrawable sole call (few member)
    rw [← List.append_assoc, Keeping.behind_concat, drawn, List.count_append, unmarked, same]
    have old' : k < (ledgers.behind (calls ++ more)).length := by
      simp only [Keeping.length_behind, List.length_append]
      omega
    exact ⟨shut.after old' sole (apart call (by simp)), Nat.add_zero _⟩

/-- What is left of a closed stream, behind the calls of a program. -/
structure ClosedForNow (calls : List (Call τ σ ν)) (n : Nat) (type : ι) (s : Stream σ ν (τ type)) : Prop where
  yields_nothing : ∀ more now, effect (streams.behind (calls ++ more)) (.next n) now = (.ok none, [], now)
  /-- No call draws from its sources while no other stream is made of it. -/
  undrawn : ∀ more, (∀ call ∈ more, n ∉ call.parts) → ∀ user, ∀ k ∈ sources calls n,
    (drawn (calls ++ more) user).count k = (drawn calls user).count k
  /-- A stream made of it draws the element where it stopped. -/
  mapped : ∀ d rest, s.source.next? = some (d, rest) → ∀ target f now,
    effect (streams.behind (calls ++ [.map n type target f])) (.next calls.length) now =
      ((d.bind f).item.outcome.map fun a => some ⟨target, a⟩, (d.bind f).effect now)
  chained : ∀ d rest, s.source.next? = some (d, rest) → ∀ m t, n ≠ m →
    slot (streams.behind calls) m = some ⟨type, t⟩ → ∀ now,
      effect (streams.behind (calls ++ [.chain type n m])) (.next calls.length) now =
        (d.item.outcome.map fun a => some ⟨type, a⟩, d.effect now)
  chained_behind : ∀ d rest, s.source.next? = some (d, rest) → ∀ m t, m ≠ n →
    slot (streams.behind calls) m = some ⟨type, t⟩ → t.source.next? = none → ∀ now,
      effect (streams.behind (calls ++ [.chain type m n])) (.next calls.length) now =
        (d.item.outcome.map fun a => some ⟨type, a⟩, d.effect now)

/-- A closed stream yields nothing and draws nothing, whatever is done with others. A stream that is then made of it
goes on where it stopped. -/
theorem closing_lasts_until_made_anew (calls : List (Call τ σ ν)) (n : Nat) (type : ι) (s : Stream σ ν (τ type))
    (there : slot (streams.behind calls) n = some ⟨type, s⟩) (closed : s.closed = true) :
    ClosedForNow calls n type s where
  yields_nothing more now := by
    have inside := lt_of_slot there
    rw [Keeping.length_behind] at inside
    apply effect_next_closed
    apply streams_stay_closed.behind inside
    intro x found
    rw [there] at found
    cases found
    exact closed
  undrawn more apart user k member := by
    have alike := held_by_streams calls n
    unfold sources at member
    rw [there] at alike
    cases known : slot (ledgers.behind calls) n with
    | none => simp [known] at member
    | some x =>
      rw [known] at alike member
      have shut : Shut (ledgers.behind calls) n k := by
        cases alike with
        | some related => exact .inl ⟨_, known, related.1.symm.trans closed, member⟩
      have old : k < calls.length := by
        have once := uses_behind calls k
        have weighs := uses_pos known member
        have bound := weight_le_total (Ledger.uses k) (ledgers.behind calls) n
        split at once
        · assumption
        · omega
      exact (count_drawn shut old user apart).2
  mapped d rest next target f now := by
    have made := Keeping.slot_map there f
    have onward : (s.source.bind f).next? = some (d.bind f, rest.bind f) := by rw [Source.next?_bind, next]; rfl
    exact effect_next made rfl onward now
  chained d rest next m t distinct there' now := by
    have made := Keeping.slot_chain distinct there there'
    obtain ⟨others, onward⟩ := Source.next?_append next t.source
    exact effect_next made rfl onward now
  chained_behind d rest next m t distinct there' ended now := by
    have made := Keeping.slot_chain distinct there' there
    have onward : (t.source.append s.source).next? = some (d, rest) := by
      rw [Source.append_of_next?_none ended, next]
    exact effect_next made rfl onward now

end

/-- A stream of two elements, closed before either is drawn. -/
def closedAtOnce : List (Call (fun _ : Unit => Nat) Unit String) :=
  [.create () (.listed [.ofValue 1, .ofValue 2]), .close 0]

theorem closing_lasts_until_made_anew_at_once :
    slot (streams.behind closedAtOnce) 0 =
        some ⟨(), { source := .listed [.ofValue 1, .ofValue 2], onClose := [], closed := true }⟩ ∧
      effect (streams.behind closedAtOnce) (.next 0) () = (.ok none, [], ()) ∧
      effect (streams.behind (closedAtOnce ++ [.map 0 () () fun n => .ofValue (n + 10)])) (.next 2) () =
        (.ok (some ⟨(), 11⟩), [], ()) :=
  have left := closing_lasts_until_made_anew closedAtOnce 0 () _ rfl rfl
  ⟨rfl, left.yields_nothing [] (), left.mapped _ _ rfl () (fun n => .ofValue (n + 10)) ()⟩

end StreamPool
end TestEngine

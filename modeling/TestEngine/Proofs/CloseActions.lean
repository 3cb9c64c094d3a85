import TestEngine.Proofs.Bookkeeping
import TestEngine.Proofs.StreamLedgers

/-! Each close action given to a stream runs once: when the stream is closed or dropped that holds it by then, and not
before. -/
namespace TestEngine.StreamPool
variable {ι : Type} {τ : ι → Type} {σ ν : Type}

def Call.ends : Call τ σ ν → Option Nat
  | .close n | .drop n => some n
  | _ => none

theorem effect_closed {pool : Kept fun type => Stream σ ν (τ type)} {n : Nat}
    (closed : ∀ x, slot pool n = some x → x.2.closed = true) {again : Call τ σ ν} (ends : again.ends = some n)
    (now : σ) : effect pool again now = (.ok none, [], now) := by
  cases again with
  | create | onClose | map | chain | next => contradiction
  | close m | drop m =>
    cases ends
    simp only [effect]
    cases there : slot pool n with
    | none => rfl
    | some x =>
      simp only [Stream.release, closed x there, if_true]
      rfl

section
variable [DecidableEq ι]

/-- Close actions are given only to streams that are not closed. -/
def Timely (calls : List (Call τ σ ν)) : Prop :=
  ∀ (k n : Nat) (action : Action σ ν Unit), calls[k]? = some (.onClose n action) →
    ∀ x, slot (streams.behind (calls.take k)) n = some x → x.2.closed = false

def Settled (calls : List (Call τ σ ν)) : Prop := ∀ n x, slot (streams.behind calls) n = some x → x.2.closed = true

/-- Whether a call gives a close action to a stream that is there. -/
def gives (kept : Kept fun type => Stream σ ν (τ type)) : Call τ σ ν → Bool
  | .onClose n _ => (slot kept n).isSome
  | _ => false

/-- Whether the call of that number gives a close action to a stream that is there. -/
def registered (calls : List (Call τ σ ν)) (k : Nat) : Bool :=
  (calls[k]?.map (gives (streams.behind (calls.take k)))).getD false

/-- The close actions that a stream holds, in order, each with the number of the call that gave it. -/
def held (calls : List (Call τ σ ν)) (n : Nat) : List (Nat × Action σ ν Unit) :=
  ((slot (ledgers.behind calls) n).map fun x => x.2.actions).getD []

def aggregated {β : Type} (errors : List TestError) : Except Fault (Option β) :=
  match (errors.foldl Collector.add .empty).primary with
  | none => .ok none
  | some e => .error (.error e)

theorem slot_held {calls : List (Call τ σ ν)} {n : Nat} {type : ι} {s : Stream σ ν (τ type)}
    (there : slot (streams.behind calls) n = some ⟨type, s⟩) :
    ∃ x, slot (ledgers.behind calls) n = some ⟨type, x⟩ ∧ s.closed = x.closed ∧
      s.onClose = (held calls n).map Prod.snd ∧ x.actions = held calls n := by
  have alike := held_by_streams calls n
  rw [there] at alike
  unfold held
  generalize slot (ledgers.behind calls) n = known at alike ⊢
  cases alike with
  | some related => exact ⟨_, rfl, related.1, related.2, rfl⟩

theorem timely_concat {calls : List (Call τ σ ν)} {call : Call τ σ ν} (timely : Timely (calls ++ [call])) :
    Timely calls ∧ ∀ n action, call = .onClose n action →
      ∀ x, slot (streams.behind calls) n = some x → x.2.closed = false := by
  constructor
  · intro k n action given
    have inside : k < calls.length := (List.getElem?_eq_some_iff.mp given).1
    have earlier := timely k n action (by rwa [List.getElem?_append_left inside])
    rwa [List.take_append_of_le_length (Nat.le_of_lt inside)] at earlier
  · rintro n action rfl
    have last := timely calls.length n action List.getElem?_concat_length
    rwa [List.take_left] at last

theorem registered_concat (calls : List (Call τ σ ν)) (call : Call τ σ ν) (k : Nat) :
    registered (calls ++ [call]) k =
      if k = calls.length then gives (streams.behind calls) call else registered calls k := by
  unfold registered
  rcases Nat.lt_trichotomy k calls.length with inside | rfl | beyond
  · rw [List.getElem?_append_left inside, List.take_append_of_le_length (Nat.le_of_lt inside), if_neg (by omega)]
  · rw [List.getElem?_concat_length, List.take_left, if_pos rfl]
    rfl
  · rw [List.getElem?_eq_none (by simp; omega), List.getElem?_eq_none (by omega), if_neg (by omega)]
    rfl

theorem registered_beyond (calls : List (Call τ σ ν)) : registered calls calls.length = false := by
  simp [registered]

/-- A stream is open when it is made. -/
theorem made_open {kept : Kept fun _ : ι => Ledger σ ν} {call : Call τ σ ν} {x : (_ : ι) × Ledger σ ν}
    (made : slot (ledgers.after kept call) kept.length = some x) : x.2.closed = false := by
  cases call with
  | create =>
    simp only [Keeping.after, slot_append, if_true, Option.some.injEq] at made
    subst made
    rfl
  | onClose | next | close | drop => simp [Keeping.after, slot_append] at made
  | map | chain =>
    simp only [Keeping.after] at made
    split at made
    · simp only [slot_append, length_remove, if_true, Option.some.injEq] at made
      subst made
      rfl
    · simp [slot_append] at made

/-- Where close actions are given in time, a closed stream holds none. -/
theorem closed_holds_none {calls : List (Call τ σ ν)} (timely : Timely calls) :
    ∀ n x, slot (ledgers.behind calls) n = some x → x.2.closed = true → x.2.actions = [] := by
  induction calls using List.reverseRecOn with
  | nil => simp [Keeping.behind, slot]
  | append_singleton calls call ih =>
    obtain ⟨earlier, last⟩ := timely_concat timely
    intro n x there closed
    have known := lt_of_slot there
    rw [Keeping.behind_concat] at there known
    rcases Nat.lt_or_ge n (ledgers.behind calls).length with inside | beyond
    · rcases ledgers.slot_after inside call with now | ⟨now, _⟩ | ⟨action, given, now⟩ | ⟨_, now⟩ | ⟨_, now⟩ <;>
        rw [now] at there
      · exact ih earlier n x there closed
      · contradiction
      · obtain ⟨y, found, rfl⟩ := Option.map_eq_some_iff.mp there
        obtain ⟨s, stream, same⟩ := closed_of_slot found
        have contrary := last n action given s stream
        rw [same] at contrary
        exact absurd closed (by simp [ledgers, contrary])
      · obtain ⟨y, found, rfl⟩ := Option.map_eq_some_iff.mp there
        exact ih earlier n y found closed
      · obtain ⟨y, found, rfl⟩ := Option.map_eq_some_iff.mp there
        show (Ledger.close y.2).actions = []
        unfold Ledger.close
        split
        · next already => exact ih earlier n y found already
        · rfl
    · have last : n = (ledgers.behind calls).length := by
        rw [Keeping.length_after] at known
        omega
      rw [last] at there
      rw [made_open there] at closed
      contradiction

def Ledger.due (k : Nat) (x : Ledger σ ν) : Nat := (x.actions.map Prod.fst).count k

/-- What a call runs is taken out of a ledger, and what it gives is put into one. -/
theorem due_balance {calls : List (Call τ σ ν)} (timely : Timely calls) (call : Call τ σ ν) (k : Nat) :
    let kept := ledgers.behind calls
    (released kept call).count k + weight (Ledger.due k) (putIn kept call) =
      weight (Ledger.due k) (takenOut kept call) +
        if k = calls.length then (gives (streams.behind calls) call).toNat else 0 := by
  have tidy := closed_holds_none timely
  cases call with
  | create | map | chain | next => simp [released, putIn, takenOut, gives, weight, Ledger.due]
  | onClose n action =>
    have alike := held_by_streams calls n
    simp only [released, putIn, takenOut, gives]
    generalize slot (streams.behind calls) n = s, slot (ledgers.behind calls) n = x at alike ⊢
    cases alike with
    | none => simp [weight]
    | some =>
      by_cases last : k = calls.length
      · simp [weight, Ledger.due, last]
      · simp [weight, Ledger.due, last, Ne.symm last]
  | close n | drop n =>
    simp only [released, putIn, takenOut, gives]
    cases there : slot (ledgers.behind calls) n with
    | none => simp [weight]
    | some x =>
      cases closed : x.2.closed with
      | true =>
        have empty := tidy n x there closed
        simp [weight, Ledger.due, Ledger.close, closed, empty]
      | false => simp [weight, Ledger.due, Ledger.close, closed]

/-- A close action given has either run or is held by one stream, and no other has or is. -/
theorem count_ran {calls : List (Call τ σ ν)} (timely : Timely calls) (user : σ) (k : Nat) :
    (ran calls user).count k + total (Ledger.due k) (ledgers.behind calls) = (registered calls k).toNat := by
  induction calls using List.reverseRecOn with
  | nil => rfl
  | append_singleton calls call ih =>
    obtain ⟨earlier, _⟩ := timely_concat timely
    have before := ih earlier
    have due := due_balance earlier call k
    have balance := total_after (Ledger.due k) (by simp [Ledger.due, Ledger.chain]) (fun _ => rfl)
      (ledgers.behind calls) call
    rw [Keeping.behind_concat, ran_concat, registered_concat, List.count_append]
    by_cases last : k = calls.length
    · subst last
      rw [registered_beyond, Bool.toNat_false] at before
      rw [if_pos rfl] at due ⊢
      omega
    · rw [if_neg last] at due ⊢
      omega

theorem closed_behind {kept : Kept fun type => Stream σ ν (τ type)} {n : Nat} (inside : n < kept.length)
    {ending : Call τ σ ν} (ends : ending.ends = some n) :
    ∀ x, slot (streams.after kept ending) n = some x → x.2.closed = true := by
  intro x there
  have before : n ≠ kept.length := by omega
  cases ending with
  | create | onClose | map | chain | next => contradiction
  | close m =>
    cases ends
    simp only [Keeping.after, slot_append, length_change, if_neg before, slot_change, if_true] at there
    obtain ⟨y, _, rfl⟩ := Option.map_eq_some_iff.mp there
    simp only [streams, Stream.close]
    split
    · assumption
    · rfl
  | drop m =>
    cases ends
    simp [Keeping.after, slot_append, before, slot_remove] at there

theorem released_closed {calls : List (Call τ σ ν)} {n : Nat}
    (closed : ∀ x, slot (streams.behind calls) n = some x → x.2.closed = true) {again : Call τ σ ν}
    (ends : again.ends = some n) : released (ledgers.behind calls) again = [] := by
  cases again with
  | create | onClose | map | chain | next => contradiction
  | close m | drop m =>
    cases ends
    simp only [released]
    cases there : slot (ledgers.behind calls) n with
    | none => rfl
    | some x =>
      obtain ⟨s, stream, same⟩ := closed_of_slot there
      rw [closed s stream] at same
      simp [← same]

theorem released_open {calls : List (Call τ σ ν)} {n : Nat} {x : (type : ι) × Stream σ ν (τ type)}
    (there : slot (streams.behind calls) n = some x) (opened : x.2.closed = false) {ending : Call τ σ ν}
    (ends : ending.ends = some n) :
    released (ledgers.behind calls) ending = (held calls n).map Prod.fst := by
  obtain ⟨y, known, same, _, actions⟩ := slot_held there
  rw [opened] at same
  cases ending with
  | create | onClose | map | chain | next => contradiction
  | close m | drop m =>
    cases ends
    simp [released, known, ← same, actions]

theorem release_open {calls : List (Call τ σ ν)} {n : Nat} {x : (type : ι) × Stream σ ν (τ type)}
    (there : slot (streams.behind calls) n = some x) (opened : x.2.closed = false) (now : σ) :
    effect (streams.behind calls) (.close n) now =
        (aggregated (Action.errors ((held calls n).map Prod.snd) now), Action.inOrder ((held calls n).map Prod.snd) now) ∧
      effect (streams.behind calls) (.drop n) now = (.ok none, Action.inOrder ((held calls n).map Prod.snd) now) := by
  obtain ⟨_, _, _, actions, _⟩ := slot_held there
  simp only [effect, there, Stream.release, opened, Bool.false_eq_true, if_false, actions, Action.all_eq, and_true]
  unfold aggregated
  cases ((Action.errors ((held calls n).map Prod.snd) now).foldl Collector.add .empty).primary <;> rfl

/-- What becomes of the close actions given to the streams of a program, up to any of its calls. -/
structure ClosesOnce (calls : List (Call τ σ ν)) (user : σ) : Prop where
  /-- The marks by which the close actions are told apart change nothing else. -/
  unmarked : (course (numbered calls) user).user = (course calls user).user ∧
    (course (numbered calls) user).answers.map (fun answer => (answer.1, plain answer.2)) = (course calls user).answers
  /-- None runs twice, and none that was not given. -/
  at_most_once : ∀ k, (ran calls user).count k ≤ (registered calls k).toNat
  /-- Once every stream is closed or dropped, each has run. -/
  exactly_once : Settled calls → ∀ k, (ran calls user).count k = (registered calls k).toNat
  never_early : ∀ call : Call τ σ ν, call.ends = none → ran (calls ++ [call]) user = ran calls user
  given : ∀ n action x, slot (streams.behind calls) n = some x →
    held (calls ++ [.onClose n action]) n = held calls n ++ [(calls.length, action)]
  mapped : ∀ n type target s f, slot (streams.behind calls) n = some ⟨type, s⟩ →
    held (calls ++ [.map n type target f]) calls.length = held calls n
  chained : ∀ type first second s t, first ≠ second → slot (streams.behind calls) first = some ⟨type, s⟩ →
    slot (streams.behind calls) second = some ⟨type, t⟩ →
    held (calls ++ [.chain type first second]) calls.length = held calls first ++ held calls second
  /-- Closing an open stream, or dropping it, runs all that it holds in order. -/
  all_in_order : ∀ n x, slot (streams.behind calls) n = some x → x.2.closed = false → ∀ ending : Call τ σ ν,
    ending.ends = some n → ran (calls ++ [ending]) user = ran calls user ++ (held calls n).map Prod.fst
  raises_together : ∀ n x, slot (streams.behind calls) n = some x → x.2.closed = false → ∀ now,
    effect (streams.behind calls) (.close n) now =
        (aggregated (Action.errors ((held calls n).map Prod.snd) now), Action.inOrder ((held calls n).map Prod.snd) now) ∧
      effect (streams.behind calls) (.drop n) now = (.ok none, Action.inOrder ((held calls n).map Prod.snd) now)
  /-- Behind that, closing the stream or dropping it does nothing, whatever calls there are between. -/
  nothing_later : ∀ n x, slot (streams.behind calls) n = some x → ∀ ending again : Call τ σ ν,
    ending.ends = some n → again.ends = some n → ∀ between,
    ran (calls ++ [ending] ++ between ++ [again]) user = ran (calls ++ [ending] ++ between) user ∧
      ∀ now, effect (streams.behind (calls ++ [ending] ++ between)) again now = (.ok none, [], now)

/-- Each close action that is given to a stream while that is open runs once, when the stream is closed or dropped that
holds it then, and the errors of those that run together are told as one. -/
theorem close_actions_run_once (calls : List (Call τ σ ν)) (timely : Timely calls) (user : σ) :
    ClosesOnce calls user where
  unmarked := course_unmarked calls user
  at_most_once k := by
    have balance := count_ran timely user k
    omega
  exactly_once settled k := by
    have balance := count_ran timely user k
    have paid : total (Ledger.due k) (ledgers.behind calls) = 0 := by
      apply total_eq_zero
      intro n x there
      obtain ⟨s, stream, same⟩ := closed_of_slot there
      have closed := same.symm.trans (settled n s stream)
      simp [Ledger.due, closed_holds_none timely n x there closed]
    omega
  never_early call goes_on := by
    rw [ran_concat]
    cases call with
    | close | drop => contradiction
    | create | onClose | map | chain | next => exact List.append_nil _
  given n action x there := by
    obtain ⟨y, known, _⟩ := slot_held there
    unfold held
    rw [Keeping.slot_onClose known, known]
    rfl
  mapped n type target s f there := by
    obtain ⟨y, known, _⟩ := slot_held there
    unfold held
    rw [Keeping.slot_map known, known]
    rfl
  chained type first second s t distinct there there' := by
    obtain ⟨x, known, _⟩ := slot_held there
    obtain ⟨y, known', _⟩ := slot_held there'
    unfold held
    rw [Keeping.slot_chain distinct known known', known, known']
    rfl
  all_in_order n x there opened ending ends := by
    rw [ran_concat, released_open there opened ends]
  raises_together n x there opened now := release_open there opened now
  nothing_later n x there ending again ends ends' between := by
    have inside := lt_of_slot there
    have closed : ∀ x, slot (streams.behind (calls ++ [ending] ++ between)) n = some x → x.2.closed = true := by
      apply streams_stay_closed.behind
      · rw [Keeping.length_behind] at inside
        simp only [List.length_append, List.length_singleton]
        omega
      · rw [Keeping.behind_concat]
        exact closed_behind inside ends
    rw [ran_concat, released_closed closed ends', List.append_nil]
    exact ⟨rfl, fun now => effect_closed closed ends' now⟩

end

/-- Two streams with a close action each, of which the first fails, made one stream that is then closed. -/
def joined : List (Call (fun _ : Unit => Nat) Unit String) :=
  [.create () (.listed [.ofValue 1]), .onClose 0 fun s => (.error (.error (.failure "left")), ["left"], s),
    .create () (.listed [.ofValue 2]), .onClose 2 fun s => (.ok (), ["right"], s),
    .chain () 0 2, .map 4 () () fun n => .ofValue (n * 10), .close 5]

theorem joined_timely : Timely joined := by
  intro k n action given x there
  rcases k with _ | _ | _ | _ | _ | _ | _ | k <;> cases given
  all_goals
    cases there
    rfl

theorem joined_settled : Settled joined := by
  intro n x there
  rcases n with _ | _ | _ | _ | _ | _ | _ | n <;> cases there
  rfl

theorem close_actions_run_once_joined :
    Timely joined ∧ Settled joined ∧ (ran joined ()).count 1 = 1 ∧ (ran joined ()).count 3 = 1 :=
  have once := close_actions_run_once joined joined_timely ()
  ⟨joined_timely, joined_settled, once.exactly_once joined_settled 1, once.exactly_once joined_settled 3⟩

/-- One failure does not keep the other from running. -/
example : (course joined ()).answers.getLast? = some (.error (.error (.failure "left")), ["left", "right"]) := rfl

end TestEngine.StreamPool

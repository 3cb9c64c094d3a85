import TestEngine.Proofs.Visiting

/-! Code that runs streams down: what it takes, however many elements there are and whatever drawing them
raises, and what it does to close a stream. -/
namespace TestEngine
variable {σ ν α β δ : Type}

open Deed Execution

namespace Taken
variable {limit : Option Nat} {Use : Descriptor σ ν → Nat → α → List (Deed σ ν) → Prop}
  {parent : Descriptor σ ν} {source : Source σ ν α} {deeds : List (Deed σ ν)} {xs : List α}

/-- An error ends the draws also where there is no limit. -/
theorem unlimited (h : Taken limit Use drawn parent source deeds xs error) (failed : error ≠ none) :
    Taken none Use drawn parent source deeds xs error := by
  induction h with
  | enough | exhausted => contradiction
  | failed _ next raised => exact .failed nofun next raised
  | taken _ next value used _ ih => exact .taken nofun next value used (ih failed)

end Taken

section
variable {env : Environment σ ν} {path : List (Place σ ν)}

/-- What a draw raises is known before it is made. -/
theorem conducts_drawItem (d : Draw σ ν α) : Conducts timed env path (drawItem d) (fun drawn ds =>
    (∃ user, ds = [.act (d.step user)]) ∧ drawn = match d.item.outcome with
      | .ok value => .ok value
      | .error fault => .error fault.toError) Calm := by
  unfold drawItem
  refine (Performs.conducts (Performs.step (S := fun outcome acts =>
    ∃ user, outcome = d.item.outcome ∧ acts = (d.effect user).1.map .note) ?_ _ rfl)).calm_bind ?_
  · show Performs timed env _ (Engine.act fun s => (d.item.outcome, d.effect s)) _
    apply (Engine.performs_act _ _ _ _).calm_mono
    rintro _ _ ⟨user, rfl, rfl⟩
    exact ⟨user, rfl, rfl⟩
  · rintro _ _ ⟨_, ⟨inside, ⟨user, rfl, rfl⟩, rfl⟩, rfl⟩
    unfold Draw.step
    cases d.item.outcome with
    | ok value => exact .pure ⟨⟨user, rfl⟩, rfl⟩
    | error fault => exact .pure ⟨⟨user, rfl⟩, rfl⟩

theorem conducts_discardedDraw (d : Draw σ ν Unit) : Conducts timed env path (discard (drawItem d))
    (fun _ ds => ∃ user, ds = [.act (d.step user)]) Calm :=
  (conducts_drawItem d).discard fun _ _ ⟨drawn, _⟩ => drawn

theorem conducts_closeStream (stream : Stream σ ν α) (error : Option TestError) :
    Conducts timed env path (collect (error.elim Collector.empty Collector.empty.add) (closeStream stream))
      (fun c ds => ∃ user, ds = [.act (stream.closingStep user)] ∧
        Collects c.primary (error.toList ++ raised ds)) Calm := by
  have stepped : Conducts timed env path (closeStream stream).run (fun outcome ds => ∃ user,
      outcome = (stream.release user).1 ∧ ds = [.act (stream.closingStep user)]) Calm := by
    apply (Performs.conducts ((Engine.performs_act stream.release _ env _).step .closeStream rfl)).calm_mono
    rintro _ _ ⟨_, ⟨_, ⟨user, rfl, rfl⟩, rfl⟩, rfl⟩
    rw [Stream.release_inOrder]
    exact ⟨user, rfl, rfl⟩
  apply (conducts_collect _ stepped).calm_mono
  rintro _ _ ⟨_, rfl, user, rfl, rfl⟩
  refine ⟨user, rfl, Collects.record ?_ ?_⟩
  · cases error with
    | none => exact .nil
    | some e => exact .single e
  · exact Counted.gathers (P := (· = .closeStream)) (fun _ => Step.noConfusion) rfl _ (stream.release user).1

/-- The check behind deeds whose errors are gathered. -/
theorem conducts_lastCheck {missing : Bool} {c : Collector} {ds : List (Deed σ ν)} (made : List β)
    (allowZero : Bool) (e : TestError) (same : missing = made.isEmpty) (gathers : Collects c.primary (raised ds)) :
    Conducts timed env path (collect c (Engine.check (if missing && c.isEmpty && !allowZero then some e else none)))
      (fun c' last => last = [lastCheck made allowZero e ds] ∧ Collects c'.primary (raised (ds ++ last))) Calm := by
  apply (conducts_collect c (conducts_check _)).calm_mono
  rintro _ _ ⟨outcome, rfl, rfl, checked⟩
  have isEmpty : c.isEmpty = (raised ds).isEmpty := by
    rw [Bool.eq_iff_iff, gathers.isEmpty_iff, List.isEmpty_iff]
  refine ⟨?_, by rw [raised_append]; exact gathers.record checked⟩
  unfold lastCheck
  rw [same, isEmpty]
  split <;> rfl

variable {Use : Descriptor σ ν → Nat → α → List (Deed σ ν) → Prop} {parent : Descriptor σ ν}

/-- One element is drawn and used, unless drawing it raises an error. -/
def Takes (Use : Descriptor σ ν → Nat → α → List (Deed σ ν) → Prop) (parent : Descriptor σ ν) (index : Nat)
    (d : Draw σ ν α) (error : Option TestError) (ds : List (Deed σ ν)) : Prop :=
  ∃ user, match d.item.outcome with
    | .error fault => error = some fault.toError ∧ ds = [.act (d.step user)]
    | .ok x => error = none ∧ ∃ used, ds = .act (d.step user) :: used ∧ Use parent index x used

/-- As `Taken`, for code that answers how many have been drawn in all, and the error. -/
def TakesAll (limit : Option Nat) (Use : Descriptor σ ν → Nat → α → List (Deed σ ν) → Prop) (drawn : Nat)
    (parent : Descriptor σ ν) (source : Source σ ν α) (last : Nat × Option TestError)
    (ds : List (Deed σ ν)) : Prop :=
  ∃ xs, last.1 = drawn + xs.length ∧ Taken limit Use drawn parent source ds xs last.2

namespace Takes
variable {limit : Option Nat} {source rest : Source σ ν α} {d : Draw σ ν α} {ds es : List (Deed σ ν)}

theorem failed (more : ∀ last ∈ limit, drawn < last) (next : source.next? = some (d, rest))
    (h : Takes Use parent (drawn + 1) d (some e) ds) :
    TakesAll limit Use drawn parent source (drawn, some e) ds := by
  obtain ⟨user, h⟩ := h
  split at h
  · rename_i fault raised
    obtain ⟨same, rfl⟩ := h
    rw [same]
    exact ⟨[], rfl, .failed more next raised⟩
  · exact absurd h.1 (Option.some_ne_none e)

theorem behind (more : ∀ last ∈ limit, drawn < last) (next : source.next? = some (d, rest))
    (h : Takes Use parent (drawn + 1) d none ds)
    (others : TakesAll limit Use (drawn + 1) parent rest last es) :
    TakesAll limit Use drawn parent source last (ds ++ es) := by
  obtain ⟨user, h⟩ := h
  obtain ⟨xs, count, taken⟩ := others
  split at h
  · exact absurd h.1.symm (Option.some_ne_none _)
  · rename_i x value
    obtain ⟨-, used, rfl, use⟩ := h
    refine ⟨x :: xs, ?_, .taken more next value use taken⟩
    rw [count, List.length_cons, Nat.add_assoc, Nat.add_comm 1]

end Takes

theorem conducts_inTurn {take : Nat → Draw σ ν α → Engine σ ν (Option TestError)} (limit : Option Nat)
    (takes : ∀ i d, Conducts timed env path (take i d) (fun error ds => Takes Use parent i d error ds) Calm)
    (drawn : Nat) (draws : List (Draw σ ν α)) :
    Conducts timed env path (inTurn take drawn (limit.elim draws fun last => draws.take (last - drawn)))
      (fun last ds => TakesAll limit Use drawn parent (.listed draws) last ds) Calm := by
  induction draws generalizing drawn with
  | nil =>
    have empty : (limit.elim [] fun last => ([] : List (Draw σ ν α)).take (last - drawn)) = [] := by
      cases limit <;> simp
    rw [empty]
    exact .pure ⟨[], rfl, .exhausted rfl⟩
  | cons d draws ih =>
    by_cases more : ∀ last ∈ limit, drawn < last
    · have first : (limit.elim (d :: draws) fun last => (d :: draws).take (last - drawn)) =
          d :: limit.elim draws fun last => draws.take (last - (drawn + 1)) := by
        cases limit with
        | none => rfl
        | some last =>
          have here : last - drawn = last - (drawn + 1) + 1 := by have := more last rfl; omega
          simp only [Option.elim, here, List.take_succ_cons]
      rw [first]
      apply (takes (drawn + 1) d).calm_bind
      intro error ds taken
      cases error with
      | some e => exact .pure (by simpa using taken.failed more rfl)
      | none => exact (ih (drawn + 1)).calm_mono (fun _ _ rest => taken.behind more rfl rest)
    · obtain ⟨last, same, within⟩ : ∃ last, limit = some last ∧ last ≤ drawn := by
        cases limit with
        | none => exact absurd nofun more
        | some last => exact ⟨last, rfl, by simpa using more⟩
      subst same
      simp only [Option.elim, Nat.sub_eq_zero_of_le within, List.take_zero]
      exact .pure ⟨[], rfl, .enough rfl within⟩

theorem conducts_upTo {drawn : Nat} {take : Nat → Engine σ ν (Option TestError)} {draw : Nat → Draw σ ν α}
    (takes : ∀ i, Conducts timed env path (take i)
      (fun error ds => Takes Use parent (drawn + i + 1) (draw i) error ds) Calm) (left i : Nat) :
    Conducts timed env path (upTo take drawn left i) (fun last ds =>
      TakesAll (some (drawn + i + left)) Use (drawn + i) parent (.endless fun k => draw (i + k)) last ds)
      Calm := by
  induction left generalizing i with
  | zero => exact .pure ⟨[], rfl, .enough rfl (Nat.le_refl _)⟩
  | succ left ih =>
    have more : ∀ last ∈ some (drawn + i + (left + 1)), drawn + i < last := by
      rintro _ ⟨⟩
      omega
    have next : (Source.endless fun k => draw (i + k)).next? =
        some (draw i, .endless fun k => draw (i + 1 + k)) := by
      simp only [Source.next?, Nat.add_zero, Nat.add_assoc, Nat.add_comm 1]
    apply (takes i).calm_bind
    intro error ds taken
    cases error with
    | some e => exact .pure (by simpa using taken.failed more next)
    | none =>
      apply (ih (i + 1)).calm_mono
      intro last es rest
      have limits : drawn + (i + 1) + left = drawn + i + (left + 1) := by omega
      rw [limits] at rest
      exact taken.behind more next rest

/-- Draws from a sequence without an end come to an end by an error only. -/
theorem conducts_withoutEnd {limit : Option Nat} {source : Source σ ν α}
    {draws : Engine σ ν (Nat × Option TestError)}
    (h : Conducts timed env path draws (fun last ds => TakesAll limit Use drawn parent source last ds) Calm) :
    Conducts timed env path (withoutEnd draws) (fun last ds => TakesAll none Use drawn parent source last ds) Calm := by
  apply h.calm_bind
  rintro ⟨count, error⟩ ds ⟨xs, same, taken⟩
  cases error with
  | some e => exact .pure ⟨xs, same, by simpa using taken.unlimited (Option.some_ne_none e)⟩
  | none => exact .halt nofun

theorem conducts_unlessClosed {limit : Option Nat} {draws : Engine σ ν (Nat × Option TestError)}
    (stream : Stream σ ν α)
    (h : Conducts timed env path draws (fun last ds => TakesAll limit Use drawn parent stream.source last ds) Calm) :
    Conducts timed env path (unlessClosed stream.closed drawn draws) (fun last ds =>
      TakesAll limit Use drawn parent stream.remaining last ds) Calm := by
  unfold unlessClosed Stream.remaining
  split
  · exact .pure ⟨[], rfl, .exhausted rfl⟩
  · exact h

end
end TestEngine

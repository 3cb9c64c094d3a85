import TestEngine.Extension
import Mathlib.Data.List.Induction

/-! Positions in registries. A chain of registries grows by registrations and by registries below its last one. For
each capability an extreme position is claimed at most once in a chain, and what is registered applies in the one
order that this leaves. -/
namespace TestEngine

/-- What becomes of a chain of registries: the last one has a registry below it, or registers an extension. -/
inductive Registry.Change (ε : Type) where
  | child (scope : Scope)
  | register (extension : ε) (position : Position)

namespace Registry
variable {ε : Type}

/-- All registrations of a chain, from the outermost registry to the node's own, and in each of them in order. -/
def chain (r : Registry ε) : List (Registration ε) := r.layers.reverse.flatMap (·.registrations)

@[simp] theorem chain_root : (root : Registry ε).chain = [] := rfl

@[simp] theorem chain_child (r : Registry ε) (scope : Scope) : (r.child scope).chain = r.chain := by
  simp [chain, layers, child]

theorem mem_chain {r : Registry ε} {x : Registration ε} :
    x ∈ r.chain ↔ x ∈ r.layers.flatMap (·.registrations) := by
  simp [chain]

variable [Registrable ε]

/-- The registrations of a chain that claim a position for a capability. -/
def claims (r : Registry ε) (capability : Capability) (position : Position) : List (Registration ε) :=
  r.chain.filter fun x => x.position == position && Registrable.has x.extension capability

theorem claim?_eq_none_iff {r : Registry ε} {capability : Capability} {position : Position} :
    r.claim? capability position = none ↔ r.claims capability position = [] := by
  rw [claim?, claims, List.find?_eq_none, List.filter_eq_nil_iff]
  exact forall_congr' fun x => by rw [mem_chain]

/-- A registration is refused if it is for an extreme position that is claimed for one of its capabilities. -/
theorem conflict?_ne_none_iff {r : Registry ε} {e : ε} {position : Position} :
    r.conflict? e position ≠ none ↔ position ≠ .default ∧
      ∃ capability, Registrable.has e capability = true ∧ r.claims capability position ≠ [] := by
  have claimed (capability : Capability) :
      (if Registrable.has e capability then
        (r.claim? capability position).map fun x => alreadyClaimed e x.extension position capability
      else none) = none ↔ ¬ (Registrable.has e capability = true ∧ r.claims capability position ≠ []) := by
    split
    · rename_i able
      simp [able, claim?_eq_none_iff]
    · rename_i unable
      simp [unable]
  unfold conflict?
  split
  · rename_i plain
    simp [plain]
  · rename_i extreme
    rw [ne_eq, List.findSome?_eq_none_iff]
    simp only [claimed, Capability.mem_every, true_implies, not_forall, not_not]
    exact (and_iff_right extreme).symm

theorem register_error_iff {r : Registry ε} {e : ε} {position : Position} :
    (∃ error, r.register e position = .error error) ↔ position ≠ .default ∧
      ∃ capability, Registrable.has e capability = true ∧ r.claims capability position ≠ [] := by
  rw [← conflict?_ne_none_iff, register]
  cases r.conflict? e position <;> simp

/-- What a registration that is not refused adds to the chain. -/
theorem chain_register {r r' : Registry ε} {e : ε} {position : Position} (h : r.register e position = .ok r') :
    r'.chain = r.chain ++ [⟨e, position, r.own.scope⟩] := by
  unfold register at h
  split at h
  · contradiction
  · cases h
    simp [chain, layers]

theorem claims_register {r r' : Registry ε} {e : ε} {position : Position} (h : r.register e position = .ok r')
    (capability : Capability) (p : Position) : r'.claims capability p = r.claims capability p ++
      if position = p ∧ Registrable.has e capability = true then [⟨e, position, r.own.scope⟩] else [] := by
  rw [claims, chain_register h, List.filter_append, List.filter_cons, List.filter_nil]
  simp [claims]

def Unrivalled (r : Registry ε) : Prop :=
  ∀ capability position, position ≠ .default → (r.claims capability position).length ≤ 1

theorem Unrivalled.child {r : Registry ε} (h : r.Unrivalled) (scope : Scope) : (r.child scope).Unrivalled := by
  intro capability position extreme
  rw [claims, chain_child]
  exact h capability position extreme

/-- A registration that claims what is claimed already is refused. -/
theorem Unrivalled.register {r r' : Registry ε} {e : ε} {position : Position} (h : r.Unrivalled)
    (registered : r.register e position = .ok r') : r'.Unrivalled := by
  intro capability p extreme
  rw [claims_register registered]
  split
  · rename_i claiming
    obtain ⟨rfl, able⟩ := claiming
    have unclaimed : r.claims capability position = [] := by
      by_contra claimed
      obtain ⟨error, refused⟩ := register_error_iff.mpr ⟨extreme, capability, able, claimed⟩
      rw [refused] at registered
      contradiction
    simp [unclaimed]
  · simpa using h capability p extreme

def Change.apply (r : Registry ε) : Change ε → Registry ε
  | .child scope => r.child scope
  | .register e position =>
    match r.register e position with
    | .ok r' => r'
    | .error _ => r

/-- The registry at the end of a chain that starts with an empty one. -/
def reached (changes : List (Change ε)) : Registry ε := changes.foldl Change.apply root

theorem Unrivalled.apply {r : Registry ε} (h : r.Unrivalled) (change : Change ε) :
    (change.apply r).Unrivalled := by
  cases change with
  | child scope => exact h.child scope
  | register e position =>
    simp only [Change.apply]
    split
    · rename_i registered
      exact h.register registered
    · exact h

theorem reached_unrivalled (changes : List (Change ε)) : (reached changes).Unrivalled := by
  induction changes using List.reverseRecOn with
  | nil => exact fun _ _ _ => Nat.zero_le 1
  | append_singleton changes change ih =>
    rw [reached, List.foldl_append]
    exact ih.apply change

theorem reached_refused {changes later : List (Change ε)} {e : ε} {position : Position} {error : TestError}
    (refused : (reached changes).register e position = .error error) :
    reached (changes ++ .register e position :: later) = reached (changes ++ later) := by
  have unchanged : (Change.register e position).apply (reached changes) = reached changes := by
    simp [Change.apply, refused]
  rw [reached, List.foldl_append, List.foldl_cons, ← reached, unchanged, reached, ← List.foldl_append, ← reached]

/-- In every chain of registries an extreme position is claimed at most once for each capability. A registration is
refused if and only if it would claim one a second time, and it then makes no difference to what comes after. -/
theorem extremes_claimed_once (changes : List (Change ε)) :
    (∀ capability position, position ≠ .default → ((reached changes).claims capability position).length ≤ 1) ∧
    ∀ e position,
      ((∃ error, (reached changes).register e position = .error error) ↔ position ≠ .default ∧
        ∃ capability, Registrable.has e capability = true ∧ (reached changes).claims capability position ≠ []) ∧
      ∀ error, (reached changes).register e position = .error error → ∀ later,
        reached (changes ++ .register e position :: later) = reached (changes ++ later) :=
  ⟨reached_unrivalled changes, fun _ _ => ⟨register_error_iff, fun _ refused _ => reached_refused refused⟩⟩

private def around (name : String) : Extension Unit String :=
  { name, beforeEach := some (.code (.done (.ok ()))), afterEach := some (.code (.done (.ok ()))) }

/-- Three registries. The second outermost extension comes too late. -/
private def sample : List (Change (Extension Unit String)) :=
  [.register (around "plain") .default, .child .testClass, .register (around "first") .outermost,
    .register (around "last") .innermost, .child .method, .register (around "second") .outermost,
    .register (around "local") .default]

theorem extremes_claimed_once_sample :
    ((reached sample).claims .afterEach .outermost).map (·.extension.name) = ["first"] ∧
    ((reached sample).claims .afterEach .outermost).length ≤ 1 ∧
    ∃ error, (reached sample).register (around "third") .outermost = .error error ∧
      reached (sample ++ [.register (around "third") .outermost, .child .invocation]) =
        reached (sample ++ [.child .invocation]) := by
  obtain ⟨once, registering⟩ := extremes_claimed_once sample
  obtain ⟨refused, idle⟩ := registering (around "third") .outermost
  obtain ⟨error, raised⟩ := refused.mpr ⟨nofun, .afterEach, rfl, by simp [List.ne_nil_iff_length_pos]; decide⟩
  exact ⟨rfl, once .afterEach .outermost nofun, error, raised, idle error raised [.child .invocation]⟩

theorem filter_position (r : Registry ε) (capability : Capability) (position : Position) :
    (r.supporting capability).filter (·.position == position) = r.claims capability position := by
  rw [supporting, List.filter_filter]
  rfl

theorem inward_eq (r : Registry ε) (capability : Capability) : r.inward capability =
    r.claims capability .outermost ++ r.claims capability .default ++ r.claims capability .innermost := by
  simp only [inward, filter_position]

omit [Registrable ε] in
theorem perm_by_position (xs : List (Registration ε)) : (xs.filter (·.position == .outermost)
    ++ xs.filter (·.position == .default) ++ xs.filter (·.position == .innermost)).Perm xs := by
  induction xs with
  | nil => exact .nil
  | cons x xs ih =>
    cases position : x.position with
    | outermost => simpa [position] using ih
    | default =>
      simp only [List.filter_cons, position, reduceCtorEq, beq_iff_eq, if_true, if_false, List.append_assoc,
        List.cons_append] at ih ⊢
      exact List.perm_middle.trans (ih.cons x)
    | innermost =>
      simp only [List.filter_cons, position, reduceCtorEq, beq_iff_eq, if_true, if_false] at ih ⊢
      exact List.perm_middle.trans (ih.cons x)

theorem inward_perm (r : Registry ε) (capability : Capability) :
    (r.inward capability).Perm (r.supporting capability) := perm_by_position _

theorem inward_filter (r : Registry ε) (capability other : Capability) :
    (r.inward capability).filter (fun x => Registrable.has x.extension other) =
      (r.inward other).filter fun x => Registrable.has x.extension capability := by
  have both (position : Position) :
      (r.claims capability position).filter (fun x => Registrable.has x.extension other) =
        (r.claims other position).filter fun x => Registrable.has x.extension capability := by
    simp only [claims, List.filter_filter]
    congr 1
    funext x
    ac_rfl
  simp only [inward_eq, List.filter_append, both]

theorem extensions_filter (r : Registry ε) (capability other : Capability) :
    (r.extensions capability).filter (Registrable.has · other) =
      let found := (((r.inward capability).filter fun x => Registrable.has x.extension other)).map (·.extension)
      if capability.isAfter then found.reverse else found := by
  unfold extensions
  split <;> simp [List.filter_map, Function.comp_def]

/-- What has both capabilities applies behind a step in the reverse of the order before it. -/
theorem extensions_nested (r : Registry ε) {before after : Capability} (first : before.isAfter = false)
    (second : after.isAfter = true) : (r.extensions after).filter (Registrable.has · before) =
      ((r.extensions before).filter (Registrable.has · after)).reverse := by
  simp only [extensions_filter, first, second, inward_filter r after before, if_true, Bool.false_eq_true, if_false]

theorem exists_toList_of_length_le_one {α : Type} {xs : List α} (h : xs.length ≤ 1) :
    ∃ o : Option α, xs = o.toList := by
  match xs with
  | [] => exact ⟨none, rfl⟩
  | [x] => exact ⟨some x, rfl⟩
  | _ :: _ :: _ => simp at h

/-- In every chain of registries each registration with a capability applies once: before a step the one at the
outermost position, then those that claim none in the order of registration with those above first, then the one at
the innermost position; behind a step the other way round. So what comes before and what comes behind a step nest. -/
theorem applied_by_position (changes : List (Change ε)) :
    (∀ capability, ∃ (outer inner : Option (Registration ε)) (inward : List (Registration ε)),
      (reached changes).claims capability .outermost = outer.toList ∧
      (reached changes).claims capability .innermost = inner.toList ∧
      inward = outer.toList ++ (reached changes).claims capability .default ++ inner.toList ∧
      inward.Perm ((reached changes).chain.filter fun x => Registrable.has x.extension capability) ∧
      (reached changes).extensions capability =
        (if capability.isAfter then inward.reverse else inward).map (·.extension)) ∧
    ∀ before after : Capability, before.isAfter = false → after.isAfter = true →
      ((reached changes).extensions after).filter (Registrable.has · before) =
        (((reached changes).extensions before).filter (Registrable.has · after)).reverse := by
  refine ⟨fun capability => ?_, fun _ _ => extensions_nested _⟩
  have once := reached_unrivalled changes capability
  obtain ⟨outer, outermost⟩ := exists_toList_of_length_le_one (once .outermost nofun)
  obtain ⟨inner, innermost⟩ := exists_toList_of_length_le_one (once .innermost nofun)
  refine ⟨outer, inner, (reached changes).inward capability, outermost, innermost, ?_, ?_, ?_⟩
  · rw [← outermost, ← innermost]
    exact inward_eq _ capability
  · exact inward_perm _ capability
  · unfold extensions
    split <;> simp

theorem applied_by_position_sample :
    ((reached sample).extensions .beforeEach).map (·.name) = ["first", "plain", "local", "last"] ∧
    ((reached sample).extensions .afterEach).map (·.name) = ["last", "local", "plain", "first"] ∧
    ((reached sample).extensions .afterEach).filter (Registrable.has · .beforeEach) =
      (((reached sample).extensions .beforeEach).filter (Registrable.has · .afterEach)).reverse :=
  ⟨rfl, rfl, (applied_by_position sample).2 .beforeEach .afterEach rfl rfl⟩

end Registry
end TestEngine

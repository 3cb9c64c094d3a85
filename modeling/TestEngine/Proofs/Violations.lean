import TestEngine.Proofs.Validation

/-! What a tree is rejected for: what is wrong with the first node in preorder with which anything is. Of a node below
another it is looked at first whether its identifier leads on from that of the other, then at the identifier itself. -/
namespace TestEngine
variable {σ ν : Type}

structure Link where
  above : Option UniqueId
  id : UniqueId

namespace Link
variable {l : Link} {earlier : List UniqueId}

/-- The identifier leads on from the one above it, if there is one. -/
def Attached (l : Link) : Prop := ∀ parent ∈ l.above, l.id.Below parent

/-- What is wrong with a node that stands behind others with the identifiers `earlier`. -/
inductive Violates (earlier : List UniqueId) : Link → EngineError → Prop where
  | detached {parent id : UniqueId} : ¬ id.Below parent → Violates earlier ⟨some parent, id⟩ (.detachedChild parent id)
  | malformed {l : Link} : l.Attached → l.id.isWellFormed = false → Violates earlier l (.invalidUniqueId l.id.render)
  | repeated {l : Link} : l.Attached → l.id.isWellFormed = true → l.id ∈ earlier →
      Violates earlier l (.duplicateUniqueId l.id)

/-- At most one thing is wrong with a node. -/
theorem Violates.unique {e e' : EngineError} (h : l.Violates earlier e) (h' : l.Violates earlier e') : e = e' := by
  cases h with
  | detached detached =>
    cases h' with
    | detached => rfl
    | malformed attached => exact absurd (attached _ rfl) detached
    | repeated attached => exact absurd (attached _ rfl) detached
  | malformed attached malformed =>
    cases h' with
    | detached detached => exact absurd (attached _ rfl) detached
    | malformed => rfl
    | repeated _ wellFormed => exact absurd wellFormed (by simp [malformed])
  | repeated attached wellFormed =>
    cases h' with
    | detached detached => exact absurd (attached _ rfl) detached
    | malformed _ malformed => exact absurd wellFormed (by simp [malformed])
    | repeated => rfl

theorem unviolated_iff : (∀ e, ¬ l.Violates earlier e) ↔ l.Attached ∧ l.id.isWellFormed = true ∧ l.id ∉ earlier := by
  constructor
  · intro sound
    have attached : l.Attached := by
      intro parent above
      by_contra detached
      obtain ⟨_, id⟩ := l
      cases above
      exact sound _ (.detached detached)
    have wellFormed : l.id.isWellFormed = true := by
      by_contra malformed
      exact sound _ (.malformed attached (by simpa using malformed))
    exact ⟨attached, wellFormed, fun repeated => sound _ (.repeated attached wellFormed repeated)⟩
  · rintro ⟨attached, wellFormed, new⟩ e (detached | ⟨_, malformed⟩ | ⟨_, _, repeated⟩)
    · exact detached (attached _ rfl)
    · rw [wellFormed] at malformed
      contradiction
    · exact new repeated

end Link

/-- Nothing is wrong with any of the nodes, each behind those before it. -/
def Faultless (earlier : List UniqueId) (ls : List Link) : Prop :=
  ∀ before l after, ls = before ++ l :: after → ∀ e, ¬ l.Violates (earlier ++ before.map (·.id)) e

/-- Something is wrong with one of the nodes, and nothing with those before it. -/
def FirstViolation (earlier : List UniqueId) (ls : List Link) (e : EngineError) : Prop :=
  ∃ before l after, ls = before ++ l :: after ∧ Faultless earlier before ∧ l.Violates (earlier ++ before.map (·.id)) e

section
variable {earlier : List UniqueId} {l : Link} {ls : List Link} {e : EngineError}

theorem faultless_nil : Faultless earlier [] := by
  intro before l after same
  simp at same

theorem faultless_cons :
    Faultless earlier (l :: ls) ↔ (∀ e, ¬ l.Violates earlier e) ∧ Faultless (earlier ++ [l.id]) ls := by
  constructor
  · intro faultless
    constructor
    · simpa using faultless [] l ls rfl
    · intro before l' after same
      simpa using faultless (l :: before) l' after (by rw [same, List.cons_append])
  · rintro ⟨here, later⟩ before l' after same
    cases before with
    | nil =>
      cases same
      simpa using here
    | cons x before =>
      obtain ⟨rfl, rest⟩ := List.cons.inj same
      simpa using later before l' after rest

theorem firstViolation_cons : FirstViolation earlier (l :: ls) e ↔
    l.Violates earlier e ∨ (∀ e, ¬ l.Violates earlier e) ∧ FirstViolation (earlier ++ [l.id]) ls e := by
  constructor
  · rintro ⟨before, l', after, same, faultless, violates⟩
    cases before with
    | nil =>
      cases same
      exact .inl (by simpa using violates)
    | cons x before =>
      obtain ⟨rfl, rest⟩ := List.cons.inj same
      obtain ⟨here, later⟩ := faultless_cons.mp faultless
      exact .inr ⟨here, before, l', after, rest, later, by simpa using violates⟩
  · rintro (violates | ⟨here, before, l', after, rfl, later, violates⟩)
    · exact ⟨[], l, ls, rfl, faultless_nil, by simpa using violates⟩
    · exact ⟨l :: before, l', after, rfl, faultless_cons.mpr ⟨here, later⟩, by simpa using violates⟩

theorem not_firstViolation_nil : ¬ FirstViolation earlier [] e := by
  rintro ⟨before, l, after, same, -⟩
  simp at same

theorem faultless_iff : Faultless earlier ls ↔ ∀ e, ¬ FirstViolation earlier ls e := by
  induction ls generalizing earlier with
  | nil =>
    constructor
    · exact fun _ _ => not_firstViolation_nil
    · exact fun _ => faultless_nil
  | cons l ls ih =>
    rw [faultless_cons, ih]
    simp only [firstViolation_cons, not_or, forall_and, not_and]
    exact and_congr_right fun here => ⟨fun later e _ => later e, fun later e => later e here⟩

theorem firstViolation_append {xs ys : List Link} : FirstViolation earlier (xs ++ ys) e ↔
    FirstViolation earlier xs e ∨ Faultless earlier xs ∧ FirstViolation (earlier ++ xs.map (·.id)) ys e := by
  induction xs generalizing earlier with
  | nil => simp [not_firstViolation_nil, faultless_nil]
  | cons l xs ih =>
    rw [List.cons_append, firstViolation_cons, firstViolation_cons, faultless_cons, ih]
    simp only [List.map_cons, List.append_assoc, List.singleton_append]
    tauto

/-- What is wrong with the first node is what is wrong first. -/
theorem firstViolation_of_violates {e' : EngineError} (violates : l.Violates earlier e') :
    FirstViolation earlier (l :: ls) e ↔ e' = e := by
  rw [firstViolation_cons]
  constructor
  · rintro (same | ⟨here, -⟩)
    · exact violates.unique same
    · exact absurd violates (here e')
  · rintro rfl
    exact .inl violates

theorem FirstViolation.unique {e' : EngineError} (h : FirstViolation earlier ls e) (h' : FirstViolation earlier ls e') :
    e = e' := by
  induction ls generalizing earlier with
  | nil => exact absurd h not_firstViolation_nil
  | cons l ls ih =>
    rcases firstViolation_cons.mp h with violates | ⟨here, later⟩
    · rcases firstViolation_cons.mp h' with violates' | ⟨here, -⟩
      · exact violates.unique violates'
      · exact absurd violates (here e)
    · rcases firstViolation_cons.mp h' with violates' | ⟨-, later'⟩
      · exact absurd violates' (here e')
      · exact ih later later'

end

namespace TestTree

mutual
/-- All nodes, every one before those below it, and each with the one above it. -/
def links (above : Option UniqueId) : TestTree σ ν → List Link
  | .node d cs => ⟨above, d.id⟩ :: linksAll d.id cs
def linksAll (parent : UniqueId) : List (TestTree σ ν) → List Link
  | [] => []
  | t :: ts => links (some parent) t ++ linksAll parent ts
end

mutual
theorem links_ids : (t : TestTree σ ν) → ∀ above, (links above t).map (·.id) = ids t
  | .node d cs, above => by
    have below := linksAll_ids cs d.id
    rw [links, List.map_cons, below]
    rfl
theorem linksAll_ids : (ts : List (TestTree σ ν)) → ∀ parent, (linksAll parent ts).map (·.id) = idsAll ts
  | [], _ => rfl
  | t :: ts, parent => by
    rw [linksAll, List.map_append, links_ids t, linksAll_ids ts, idsAll_cons]
end

theorem links_eq (above : Option UniqueId) (t : TestTree σ ν) :
    links above t = ⟨above, t.descriptor.id⟩ :: linksAll t.descriptor.id t.children := by
  cases t
  rfl

mutual
/-- A node that is attached is rejected for what is wrong first with it and the nodes below it. The order in which
identifiers were seen plays no part. -/
theorem check_error_iff : (t : TestTree σ ν) → ∀ {above : Option UniqueId} {seen earlier : List UniqueId}
    {e : EngineError}, Link.Attached ⟨above, t.descriptor.id⟩ → (∀ x, x ∈ seen ↔ x ∈ earlier) →
    (check seen t = .error e ↔ FirstViolation earlier (links above t) e)
  | .node d cs, above, seen, earlier, e, attached, same => by
    have attached : Link.Attached ⟨above, d.id⟩ := attached
    unfold check links
    by_cases wellFormed : d.id.isWellFormed = true
    · rw [if_neg (by simp [wellFormed])]
      by_cases member : d.id ∈ seen
      · rw [if_pos (by simpa using member),
          firstViolation_of_violates (.repeated attached wellFormed ((same d.id).mp member)), Except.error.injEq]
      · have sound : ∀ e, ¬ Link.Violates earlier ⟨above, d.id⟩ e :=
          Link.unviolated_iff.mpr ⟨attached, wellFormed, mt (same d.id).mpr member⟩
        have seen' : ∀ x, x ∈ d.id :: seen ↔ x ∈ earlier ++ [d.id] := by
          intro x
          simp [same, or_comm]
        rw [if_neg (by simpa using member), firstViolation_cons, checkAll_error_iff cs seen']
        simp [sound]
    · have malformed : d.id.isWellFormed = false := by simpa using wellFormed
      rw [if_pos (by simp [malformed]), firstViolation_of_violates (.malformed attached malformed), Except.error.injEq]
theorem checkAll_error_iff : (ts : List (TestTree σ ν)) → ∀ {parent : UniqueId} {seen earlier : List UniqueId}
    {e : EngineError}, (∀ x, x ∈ seen ↔ x ∈ earlier) →
    (checkAll parent seen ts = .error e ↔ FirstViolation earlier (linksAll parent ts) e)
  | [], parent, seen, earlier, e, same => by
    simp [checkAll, linksAll, not_firstViolation_nil]
  | t :: ts, parent, seen, earlier, e, same => by
    unfold checkAll linksAll
    dsimp only
    by_cases below : t.descriptor.id.Below parent
    · have attached : Link.Attached ⟨some parent, t.descriptor.id⟩ := by
        intro _ above
        cases above
        exact below
      have first {e : EngineError} := check_error_iff t (e := e) attached same
      rw [if_neg (by rw [UniqueId.below_iff.mp below]; exact Bool.false_ne_true), firstViolation_append]
      cases checked : check seen t with
      | error e' =>
        have violation := first.mp checked
        have faulty : ¬ Faultless earlier (links (some parent) t) := fun faultless =>
          faultless_iff.mp faultless e' violation
        rw [Except.error.injEq, or_iff_left fun later => faulty later.1]
        constructor
        · rintro rfl
          exact violation
        · exact violation.unique
      | ok seen' =>
        have faultless : Faultless earlier (links (some parent) t) := by
          rw [faultless_iff]
          intro e violation
          rw [← first, checked] at violation
          contradiction
        have seen' : ∀ x, x ∈ seen' ↔ x ∈ earlier ++ (links (some parent) t).map (·.id) := by
          intro x
          rw [(check_adds t checked).members, links_ids, List.mem_append, same]
        rw [checkAll_error_iff ts seen', and_iff_right faultless, or_iff_right (faultless_iff.mp faultless e)]
    · have detached := mt UniqueId.below_iff.mpr below
      rw [Bool.not_eq_false] at detached
      rw [if_pos detached, links_eq, List.cons_append, firstViolation_of_violates (.detached below), Except.error.injEq]
end

theorem validate_error_iff {t : TestTree σ ν} {e : EngineError} :
    t.validate = .error e ↔ FirstViolation [] (t.links none) e := by
  have attached : Link.Attached ⟨none, t.descriptor.id⟩ := nofun
  rw [← check_error_iff t attached fun _ => Iff.rfl, validate]
  cases check [] t <;> simp [Except.map]

/-- Nothing but the identifiers of a tree decides whether it is valid, and for what it is rejected. -/
theorem validate_congr {σ' ν' : Type} {t : TestTree σ ν} {t' : TestTree σ' ν'} (same : t.links none = t'.links none) :
    t.validate = t'.validate := by
  have errors (e : EngineError) : t.validate = .error e ↔ t'.validate = .error e := by
    rw [validate_error_iff, validate_error_iff, same]
  cases valid : t.validate with
  | error e => exact ((errors e).mp valid).symm
  | ok =>
    cases valid' : t'.validate with
    | error e =>
      rw [(errors e).mpr valid'] at valid
      contradiction
    | ok => rfl

/-- A tree is valid if and only if every identifier in it has segments, each of them with a kind, no identifier is used
twice, and that of every child leads on from that of its parent. Any other tree is rejected for what is wrong with the
first node in preorder with which anything is. -/
theorem first_violation_told (t : TestTree σ ν) :
    (t.validate = .ok () ↔ (∀ id ∈ t.preorder.map (·.id), id.segments ≠ [] ∧ ∀ s ∈ id.segments, s.kind ≠ "") ∧
      (t.preorder.map (·.id)).Nodup ∧ t.Leading) ∧
    ∀ e, t.validate = .error e ↔ ∃ before l after, t.links none = before ++ l :: after ∧ Faultless [] before ∧
      l.Violates (before.map (·.id)) e := by
  constructor
  · simp only [validate_ok_iff, UniqueId.isWellFormed_iff]
    rfl
  · intro e
    exact validate_error_iff

private def place (id : UniqueId) (below : List (TestTree Unit String)) : TestTree Unit String :=
  .node { id, displayName := "", kind := .container, role := .engine } below

/-- The root has a kind and no value. Its first child is sound, but what is below that has another root and no kind; its
second child has the identifier of the root. -/
theorem first_violation_told_sample :
    let root := UniqueId.root "engine" ""
    let child := root.append "class" "A"
    let stray := UniqueId.root "" "B"
    let tree := place root [place child [place stray []], place root []]
    tree.validate = .error (.detachedChild child stray) ∧
    ∃ before l after, tree.links none = before ++ l :: after ∧ Faultless [] before ∧
      l.Violates (before.map (·.id)) (.detachedChild child stray) := by
  intro root child stray tree
  have rejected : tree.validate = .error (.detachedChild child stray) := rfl
  exact ⟨rejected, ((first_violation_told tree).2 _).mp rejected⟩

end TestTree
end TestEngine

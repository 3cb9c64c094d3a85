import TestEngine.Proofs.Identifiers

/-! Which trees are valid. A tree is if its identifiers are well formed, each is used once, and each leads on from that
of the parent; a tree that is built from a blueprint is if every segment has a kind and no two children of a node have
the same one, since ways that part do not meet again. -/
namespace TestEngine
variable {σ ν : Type}

theorem UniqueId.below_iff {id parent : UniqueId} : id.Below parent ↔
    (id.segments.length ≤ parent.segments.length || !id.hasPrefix parent) = false := by
  simp only [Bool.or_eq_false_iff, decide_eq_false_iff_not, Nat.not_le, Bool.not_eq_false', hasPrefix,
    List.isPrefixOf_iff_prefix]
  constructor
  · intro below
    exact ⟨below.length, Within.segments (.inr below)⟩
  · rintro ⟨longer, rest, same⟩
    cases rest with
    | nil =>
      rw [← same, List.append_nil] at longer
      omega
    | cons s rest => exact ⟨s, rest, same.symm⟩

namespace TestTree

/-- Every child's identifier leads on from that of its parent. -/
inductive Leading : TestTree σ ν → Prop where
  | node : (∀ t ∈ cs, t.descriptor.id.Below d.id) → (∀ t ∈ cs, Leading t) → Leading (.node d cs)

theorem leading_iff {d : Descriptor σ ν} {cs : List (TestTree σ ν)} :
    Leading (.node d cs) ↔ ∀ t ∈ cs, t.descriptor.id.Below d.id ∧ Leading t := by
  constructor
  · rintro ⟨below, leading⟩ t member
    exact ⟨below t member, leading t member⟩
  · intro each
    exact .node (fun t member => (each t member).1) fun t member => (each t member).2

/-- Identifiers that pass behind others that were seen. -/
structure Fits (seen fresh : List UniqueId) : Prop where
  wellFormed : ∀ x ∈ fresh, x.isWellFormed = true
  distinct : fresh.Nodup
  new : ∀ x ∈ fresh, x ∉ seen

theorem fits_nil (seen : List UniqueId) : Fits seen [] := ⟨nofun, List.nodup_nil, nofun⟩

theorem fits_single {seen : List UniqueId} {id : UniqueId} : Fits seen [id] ↔ id.isWellFormed = true ∧ id ∉ seen := by
  constructor
  · intro fits
    exact ⟨fits.wellFormed id (by simp), fits.new id (by simp)⟩
  · rintro ⟨wellFormed, new⟩
    exact ⟨by simpa using wellFormed, by simp, by simpa using new⟩

/-- What fits behind identifiers and others that were added to them. -/
theorem Adds.fits_append {seen xs seen' ys : List UniqueId} (adds : Adds seen xs seen') :
    Fits seen (xs ++ ys) ↔ Fits seen xs ∧ Fits seen' ys := by
  constructor
  · rintro ⟨wellFormed, distinct, new⟩
    obtain ⟨first, second, apart⟩ := List.nodup_append'.mp distinct
    constructor
    · exact ⟨fun x member => wellFormed x (List.mem_append_left _ member), first,
        fun x member => new x (List.mem_append_left _ member)⟩
    · refine ⟨fun x member => wellFormed x (List.mem_append_right _ member), second, ?_⟩
      intro x member before
      rcases (adds.members x).mp before with earlier | added
      · exact new x (List.mem_append_right _ member) earlier
      · exact apart added member
  · rintro ⟨first, second⟩
    have both : Adds seen' ys (seen' ++ ys) := ⟨second.distinct, second.new, fun x => List.mem_append⟩
    have whole := adds.append both
    refine ⟨?_, whole.distinct, whole.new⟩
    intro x member
    rcases List.mem_append.mp member with left | right
    · exact first.wellFormed x left
    · exact second.wellFormed x right

mutual
theorem check_ok_iff : (t : TestTree σ ν) → ∀ {seen : List UniqueId},
    (∃ seen', check seen t = .ok seen') ↔ Fits seen (ids t) ∧ Leading t
  | .node d cs, seen => by
    have split : ids (.node d cs) = [d.id] ++ idsAll cs := rfl
    unfold check
    by_cases here : d.id.isWellFormed = true ∧ d.id ∉ seen
    · have adds : Adds seen [d.id] (d.id :: seen) :=
        ⟨by simp, by simpa using here.2, fun x => by simp [or_comm]⟩
      rw [split, adds.fits_append, fits_single, leading_iff, and_assoc, ← checkAll_ok_iff cs]
      simp [here]
    · have refused : ¬ Fits seen (ids (.node d cs)) := by
        intro fits
        exact here ⟨fits.wellFormed _ (by simp [split]), fits.new _ (by simp [split])⟩
      simp only [refused, false_and, iff_false]
      rintro ⟨seen', checked⟩
      split at checked
      · contradiction
      · split at checked
        · contradiction
        · rename_i wellFormed unseen
          exact here ⟨by simpa using wellFormed, by simpa using unseen⟩
/-- Children pass if their identifiers lead on from that of their parent and what is below them passes. -/
theorem checkAll_ok_iff : (ts : List (TestTree σ ν)) → ∀ {parent : UniqueId} {seen : List UniqueId},
    (∃ seen', checkAll parent seen ts = .ok seen') ↔
      Fits seen (idsAll ts) ∧ ∀ t ∈ ts, t.descriptor.id.Below parent ∧ Leading t
  | [], parent, seen => by
    constructor
    · intro _
      exact ⟨fits_nil seen, nofun⟩
    · intro _
      exact ⟨seen, rfl⟩
  | t :: ts, parent, seen => by
    have first : (∃ seen', check seen t = .ok seen') ↔ Fits seen (ids t) ∧ Leading t := check_ok_iff t
    unfold checkAll
    dsimp only
    rw [List.forall_mem_cons, idsAll_cons]
    by_cases below : t.descriptor.id.Below parent
    · rw [if_neg (by rw [UniqueId.below_iff.mp below]; exact Bool.false_ne_true)]
      cases checked : check seen t with
      | ok seen' =>
        obtain ⟨fits, leading⟩ := first.mp ⟨seen', checked⟩
        rw [(check_adds t checked).fits_append, checkAll_ok_iff ts]
        simp [below, fits, leading]
      | error e =>
        have refused : ¬ (Fits seen (ids t) ∧ Leading t) := by
          rw [← first]
          simp [checked]
        have part : Fits seen (ids t ++ idsAll ts) → Fits seen (ids t) := fun fits =>
          ⟨fun x member => fits.wellFormed x (List.mem_append_left _ member), (List.nodup_append'.mp fits.distinct).1,
            fun x member => fits.new x (List.mem_append_left _ member)⟩
        constructor
        · rintro ⟨_, wrong⟩
          contradiction
        · rintro ⟨fits, ⟨_, leading⟩, _⟩
          exact absurd ⟨part fits, leading⟩ refused
    · have detached := mt UniqueId.below_iff.mpr below
      rw [Bool.not_eq_false] at detached
      rw [if_pos detached]
      simp [below]
end

/-- A tree is valid if its identifiers are well formed, no two are the same, and each leads on from the one above. -/
theorem validate_ok_iff {t : TestTree σ ν} : t.validate = .ok () ↔
    (∀ id ∈ ids t, id.isWellFormed = true) ∧ (ids t).Nodup ∧ t.Leading := by
  have checked : t.validate = .ok () ↔ ∃ seen, check [] t = .ok seen := by
    unfold validate
    cases check [] t <;> simp [Except.map]
  rw [checked, check_ok_iff]
  constructor
  · rintro ⟨fits, leading⟩
    exact ⟨fits.wellFormed, fits.distinct, leading⟩
  · rintro ⟨wellFormed, distinct, leading⟩
    exact ⟨⟨wellFormed, distinct, nofun⟩, leading⟩

end TestTree

namespace Blueprint
open TestTree

def children : Blueprint σ ν → List (Blueprint σ ν)
  | .node _ bs => bs

/-- The segment that the root of a blueprint adds to the way to it. -/
def segment (b : Blueprint σ ν) : Segment := b.outline.segment

/-- It holds of a node and of all nodes below it. -/
inductive Everywhere (p : Blueprint σ ν → Prop) : Blueprint σ ν → Prop where
  | node : p (.node o bs) → (∀ b ∈ bs, Everywhere p b) → Everywhere p (.node o bs)

theorem everywhere_iff {p : Blueprint σ ν → Prop} {o : Outline σ ν} {bs : List (Blueprint σ ν)} :
    Everywhere p (.node o bs) ↔ p (.node o bs) ∧ ∀ b ∈ bs, Everywhere p b := by
  constructor
  · rintro ⟨here, below⟩
    exact ⟨here, below⟩
  · rintro ⟨here, below⟩
    exact .node here below

mutual
/-- The ways from the root to all nodes, each told by the segments along it. -/
def paths : Blueprint σ ν → List (List Segment)
  | .node o bs => [o.segment] :: (pathsAll bs).map (o.segment :: ·)
def pathsAll : List (Blueprint σ ν) → List (List Segment)
  | [] => []
  | b :: bs => b.paths ++ pathsAll bs
end

mutual
theorem ids_buildAt : (b : Blueprint σ ν) → ∀ (above : List Segment) (enclosing : Option String),
    ids (b.buildAt ⟨above ++ [b.segment]⟩ enclosing) = b.paths.map fun p => ⟨above ++ p⟩
  | .node o bs, above, enclosing => by
    have below := idsAll_buildAll bs ⟨above ++ [o.segment]⟩ (Outline.innerClass? enclosing o.role)
    have root : ids (buildAt ⟨above ++ [o.segment]⟩ enclosing (.node o bs)) = ⟨above ++ [o.segment]⟩ ::
        idsAll (buildAll ⟨above ++ [o.segment]⟩ (Outline.innerClass? enclosing o.role) bs) := rfl
    refine root.trans ?_
    rw [below]
    simp [paths]
theorem idsAll_buildAll : (bs : List (Blueprint σ ν)) → ∀ (parent : UniqueId) (enclosing : Option String),
    idsAll (buildAll parent enclosing bs) = (pathsAll bs).map fun p => ⟨parent.segments ++ p⟩
  | [], _, _ => rfl
  | b :: bs, parent, enclosing => by
    have first := ids_buildAt b parent.segments enclosing
    have others := idsAll_buildAll bs parent enclosing
    simp only [buildAll, idsAll_cons, pathsAll, List.map_append]
    rw [others]
    exact congrArg (· ++ _) first
end

theorem ids_build (b : Blueprint σ ν) : ids b.build = b.paths.map UniqueId.mk := ids_buildAt b [] none

mutual
theorem leading_buildAt : (b : Blueprint σ ν) → ∀ (id : UniqueId) (enclosing : Option String),
    Leading (b.buildAt id enclosing)
  | .node o bs, id, enclosing => leading_iff.mpr (leading_buildAll bs id (Outline.innerClass? enclosing o.role))
theorem leading_buildAll : (bs : List (Blueprint σ ν)) → ∀ (parent : UniqueId) (enclosing : Option String),
    ∀ t ∈ buildAll parent enclosing bs, t.descriptor.id.Below parent ∧ Leading t
  | [], _, _ => nofun
  | b :: bs, parent, enclosing => by
    let id := parent.append b.segment.kind b.segment.value
    intro t member
    rcases List.mem_cons.mp member with rfl | later
    · have root := descriptor_buildAt id enclosing b
      have below : (b.buildAt id enclosing).descriptor.id.Below parent := by
        rw [root]
        exact UniqueId.below_append _ _ _
      exact ⟨below, leading_buildAt b id enclosing⟩
    · exact leading_buildAll bs parent enclosing t later
end

theorem root_mem_paths (b : Blueprint σ ν) : [b.segment] ∈ b.paths := by
  cases b
  exact List.mem_cons_self

theorem mem_pathsAll {p : List Segment} {bs : List (Blueprint σ ν)} : p ∈ pathsAll bs ↔ ∃ b ∈ bs, p ∈ b.paths := by
  induction bs with
  | nil => simp [pathsAll]
  | cons b bs ih => simp [pathsAll, ih]

theorem exists_cons_of_mem_paths {p : List Segment} {b : Blueprint σ ν} (member : p ∈ b.paths) :
    ∃ rest, p = b.segment :: rest := by
  obtain ⟨o, bs⟩ := b
  rcases List.mem_cons.mp member with rfl | below
  · exact ⟨[], rfl⟩
  · obtain ⟨rest, _, rfl⟩ := List.mem_map.mp below
    exact ⟨rest, rfl⟩

/-- What is below one of the nodes is apart from what is below the others if the segments are. -/
theorem disjoint_paths_iff {b : Blueprint σ ν} {bs : List (Blueprint σ ν)} :
    b.paths.Disjoint (pathsAll bs) ↔ b.segment ∉ bs.map segment := by
  constructor
  · intro apart shared
    obtain ⟨other, member, same⟩ := List.mem_map.mp shared
    have path := root_mem_paths other
    rw [same] at path
    exact apart (root_mem_paths b) (mem_pathsAll.mpr ⟨other, member, path⟩)
  · intro apart p left right
    obtain ⟨other, member, path⟩ := mem_pathsAll.mp right
    obtain ⟨rest, rfl⟩ := exists_cons_of_mem_paths left
    obtain ⟨rest', same⟩ := exists_cons_of_mem_paths path
    have alike : other.segment = b.segment := (List.cons.inj same).1.symm
    exact apart (alike ▸ List.mem_map_of_mem member)

mutual
theorem paths_nodup_iff : (b : Blueprint σ ν) →
    (b.paths.Nodup ↔ b.Everywhere fun n => (n.children.map segment).Nodup)
  | .node o bs => by
    have below := pathsAll_nodup_iff bs
    have injective : Function.Injective (o.segment :: · : List Segment → List Segment) :=
      fun _ _ same => (List.cons.inj same).2
    have fresh : [o.segment] ∉ (pathsAll bs).map (o.segment :: ·) := by
      intro member
      obtain ⟨rest, path, same⟩ := List.mem_map.mp member
      have nothing : rest = [] := (List.cons.inj same).2
      subst nothing
      obtain ⟨b, _, path⟩ := mem_pathsAll.mp path
      obtain ⟨_, something⟩ := exists_cons_of_mem_paths path
      contradiction
    rw [paths, List.nodup_cons, List.nodup_map_iff injective, everywhere_iff, below]
    simp only [fresh, not_false_eq_true, true_and, children]
theorem pathsAll_nodup_iff : (bs : List (Blueprint σ ν)) → ((pathsAll bs).Nodup ↔
    (bs.map segment).Nodup ∧ ∀ b ∈ bs, b.Everywhere fun n => (n.children.map segment).Nodup)
  | [] => by simp [pathsAll]
  | b :: bs => by
    have first := paths_nodup_iff b
    have others := pathsAll_nodup_iff bs
    rw [pathsAll, List.nodup_append', first, others, disjoint_paths_iff, List.map_cons, List.nodup_cons,
      List.forall_mem_cons]
    tauto
end

mutual
theorem named_paths_iff : (b : Blueprint σ ν) →
    ((∀ p ∈ b.paths, ∀ s ∈ p, s.kind ≠ "") ↔ b.Everywhere fun n => n.segment.kind ≠ "")
  | .node o bs => by
    have below := named_pathsAll_iff bs
    rw [paths, List.forall_mem_cons, List.forall_mem_map, everywhere_iff, ← below]
    constructor
    · rintro ⟨here, each⟩
      have named : o.segment.kind ≠ "" := here _ (by simp)
      exact ⟨named, fun p member s within => each p member s (by simp [within])⟩
    · rintro ⟨here, each⟩
      have named : o.segment.kind ≠ "" := here
      constructor
      · simpa using named
      · intro p member
        exact List.forall_mem_cons.mpr ⟨named, each p member⟩
theorem named_pathsAll_iff : (bs : List (Blueprint σ ν)) →
    ((∀ p ∈ pathsAll bs, ∀ s ∈ p, s.kind ≠ "") ↔ ∀ b ∈ bs, b.Everywhere fun n => n.segment.kind ≠ "")
  | [] => by simp [pathsAll]
  | b :: bs => by
    have first := named_paths_iff b
    have others := named_pathsAll_iff bs
    rw [pathsAll, List.forall_mem_append, first, others, List.forall_mem_cons]
end

mutual
theorem everywhere_and {p q : Blueprint σ ν → Prop} : (b : Blueprint σ ν) →
    (b.Everywhere (fun n => p n ∧ q n) ↔ b.Everywhere p ∧ b.Everywhere q)
  | .node o bs => by
    have below := everywhereAll_and (p := p) (q := q) bs
    rw [everywhere_iff, everywhere_iff, everywhere_iff, below]
    tauto
theorem everywhereAll_and {p q : Blueprint σ ν → Prop} : (bs : List (Blueprint σ ν)) →
    ((∀ b ∈ bs, b.Everywhere fun n => p n ∧ q n) ↔ (∀ b ∈ bs, b.Everywhere p) ∧ ∀ b ∈ bs, b.Everywhere q)
  | [] => by simp
  | b :: bs => by
    have first := everywhere_and (p := p) (q := q) b
    have others := everywhereAll_and (p := p) (q := q) bs
    rw [List.forall_mem_cons, List.forall_mem_cons, List.forall_mem_cons, first, others]
    tauto
end

/-- The tree that is built from a blueprint is valid if and only if every segment in it has a kind, that of the root
included, and no two children of a node have the same segment. The identifiers of its nodes are the paths to them. -/
theorem built_valid_iff (b : Blueprint σ ν) :
    (b.build.validate = .ok () ↔
      b.Everywhere fun n => n.segment.kind ≠ "" ∧ (n.children.map segment).Nodup) ∧
    b.build.preorder.map (·.id) = b.paths.map UniqueId.mk := by
  have ids : ids b.build = b.paths.map UniqueId.mk := ids_build b
  have injective : Function.Injective UniqueId.mk := fun _ _ same => congrArg UniqueId.segments same
  have wellFormed : (∀ id ∈ TestTree.ids b.build, id.isWellFormed = true) ↔ ∀ p ∈ b.paths, ∀ s ∈ p, s.kind ≠ "" := by
    rw [ids, List.forall_mem_map]
    simp only [UniqueId.isWellFormed_iff]
    constructor
    · intro each p member
      exact (each p member).2
    · intro named p member
      obtain ⟨rest, same⟩ := exists_cons_of_mem_paths member
      exact ⟨by simp [same], named p member⟩
  refine ⟨?_, ids⟩
  rw [validate_ok_iff, wellFormed, named_paths_iff, ids, List.nodup_map_iff injective, paths_nodup_iff, everywhere_and]
  have leading : Leading b.build := leading_buildAt b _ none
  simp only [leading, and_true]

end Blueprint
end TestEngine

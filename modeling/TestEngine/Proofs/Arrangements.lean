import Mathlib.Data.List.Perm.Basic
import TestEngine.Proofs.Dictionaries
import TestEngine.Proofs.Executing
import TestEngine.Proofs.PairedTrees
import TestEngine.Proofs.Validation

/-! Trees whose children take turns. Where children may run beside their siblings and there is one thread for them all,
they run behind those that may not. The tree in which they stand in this order is as valid as the one it comes from,
and its nodes take the same resources. -/
namespace TestEngine
variable {σ ν : Type}

open Execution Coupling

theorem sortDistinct_congr {xs ys : List String} (same : xs.Perm ys) : sortDistinct xs = sortDistinct ys := by
  refine List.Perm.eq_of_pairwise (fun a b _ _ less greater => ?_) (sortDistinct_sorted xs) (sortDistinct_sorted ys) ?_
  · exact absurd greater (String.lt_asymm less)
  · refine (List.perm_ext_iff_of_nodup ((sortDistinct_sorted xs).imp ?_) ((sortDistinct_sorted ys).imp ?_)).mpr
      fun k => ?_
    · exact fun less same => String.lt_irrefl _ (same ▸ less)
    · exact fun less same => String.lt_irrefl _ (same ▸ less)
    · rw [mem_sortDistinct, mem_sortDistinct, same.mem_iff]

theorem locksToTake_perm {xs ys : List String} (same : xs.Perm ys) (d : Descriptor σ ν) (held : List String) :
    locksToTake d xs held = locksToTake d ys held := by
  unfold locksToTake lockOrder
  rw [sortDistinct_congr (same.filter _)]

def sharesInstance (settings : Settings) (d : Descriptor σ ν) : Bool :=
  match d.testClass? with
  | some c => c.lifecycle.getD settings.defaultLifecycle = .perClass
  | none => false

/-- A child is concurrent if no exclusive resource is held at its parent and this is the mode it has: its own, or else
that of the same thread below a class with one instance for all tests, or else the default for its kind of node. -/
def runsConcurrently (settings : Settings) (parent : Descriptor σ ν) (held : List String) (child : TestTree σ ν) :
    Bool :=
  held.isEmpty && modeOf settings child.descriptor (sharesInstance settings parent) = .concurrent

/-- The children on the same thread in their order, and behind them the concurrent ones in theirs. -/
def inTurns (settings : Settings) (parent : Descriptor σ ν) (held : List String) (children : List (TestTree σ ν)) :
    List (TestTree σ ν) :=
  children.filter (!runsConcurrently settings parent held ·) ++
    children.filter (runsConcurrently settings parent held ·)

theorem inTurns_perm (settings : Settings) (parent : Descriptor σ ν) (held : List String)
    (children : List (TestTree σ ν)) : (inTurns settings parent held children).Perm children :=
  List.perm_append_comm.trans (List.filter_append_perm _ _)

/-- A tree is executed, but it is left open what is done below its root. -/
def executeAround (t : TestTree σ ν) (p : Descent σ ν) : Engine σ ν Unit :=
  visit t.descriptor (t.preorder.flatMap (·.locks)) (fun reason => p (some reason))
    (bodyOf t.descriptor (p none) fun reason => p (some reason))

theorem execute_eq_around (d : Descriptor σ ν) (cs : List (TestTree σ ν)) : Execution.execute (.node d cs) =
    executeAround (.node d cs) (descent (executeChildren (childrenOf cs)) (skipAll cs)) := rfl

/-- A run that is to execute the tree from the world `w` comes to execute the children of its root, from `v`. -/
def DescendsTo (env : Environment σ ν) (w : World σ ν) (t : TestTree σ ν) (v : World σ ν) : Prop :=
  Nonempty (Opening env (executeAround t) w none v)

def World.held (w : World σ ν) : List String := (w.frames.head?.map (·.held)).getD []

mutual
/-- The tree that is executed from a world, with its children in the order in which they take turns wherever the run
comes to execute them. Where it does not, they are skipped or left alone, and keep their order. -/
inductive Arranged (env : Environment σ ν) : World σ ν → TestTree σ ν → TestTree σ ν → Prop where
  | executed {w v d children turns} (below : DescendsTo env w (.node d children) v)
      (each : ArrangedAll env v (inTurns env.settings d v.held children) turns) :
      Arranged env w (.node d children) (.node d turns)
  | kept {w t} (never : ∀ v, ¬ DescendsTo env w t v) : Arranged env w t t
inductive ArrangedAll (env : Environment σ ν) : World σ ν → List (TestTree σ ν) → List (TestTree σ ν) → Prop where
  | nil {w} : ArrangedAll env w [] []
  | cons {w t t' ts ts'} (first : Arranged env w t t')
      (others : ArrangedAll env ((Execution.execute t).goes env w).2 ts ts') : ArrangedAll env w (t :: ts) (t' :: ts')
end

section
variable {env : Environment σ ν} {w : World σ ν}

theorem ArrangedAll.exists {ts : List (TestTree σ ν)} (each : ∀ t ∈ ts, ∀ w, ∃ t', Arranged env w t t') :
    ∀ w, ∃ ts', ArrangedAll env w ts ts' := by
  induction ts with
  | nil => exact fun _ => ⟨[], .nil⟩
  | cons t ts ih =>
    intro w
    have ⟨here, others⟩ := List.forall_mem_cons.mp each
    obtain ⟨t', first⟩ := here w
    obtain ⟨ts', rest⟩ := ih others _
    exact ⟨t' :: ts', .cons first rest⟩

theorem Arranged.exists (t : TestTree σ ν) : ∀ w, ∃ t', Arranged env w t t' := by
  induction t using TestTree.induct with
  | node d cs ih =>
    intro w
    by_cases comes : ∃ v, DescendsTo env w (.node d cs) v
    · obtain ⟨v, below⟩ := comes
      obtain ⟨turns, each⟩ := ArrangedAll.exists (fun t member => ih t ((inTurns_perm ..).mem_iff.mp member)) v
      exact ⟨.node d turns, .executed below each⟩
    · exact ⟨_, .kept (not_exists.mp comes)⟩

mutual
/-- There is one such tree. -/
theorem Arranged.unique {w : World σ ν} {t t' t'' : TestTree σ ν} :
    Arranged env w t t' → Arranged env w t t'' → t'' = t'
  | .executed below each, other => by
    cases other with
    | executed below' each' =>
      obtain ⟨-, rfl⟩ := below.some.unique below'.some
      rw [each.unique each']
    | kept never => exact absurd below (never _)
  | .kept never, other => by
    cases other with
    | executed below _ => exact absurd below (never _)
    | kept _ => rfl
theorem ArrangedAll.unique {w : World σ ν} {ts ts' ts'' : List (TestTree σ ν)} :
    ArrangedAll env w ts ts' → ArrangedAll env w ts ts'' → ts'' = ts'
  | .nil, others => by
    cases others
    rfl
  | .cons first rest, others => by
    cases others with
    | cons first' rest' => rw [first.unique first', rest.unique rest']
end

theorem Arranged.descriptor {t t' : TestTree σ ν} (arranged : Arranged env w t t') : t'.descriptor = t.descriptor := by
  cases arranged <;> rfl

mutual
theorem Arranged.preorder_perm {w : World σ ν} {t t' : TestTree σ ν} :
    Arranged env w t t' → t'.preorder.Perm t.preorder
  | .kept _ => .refl _
  | .executed _ each => by
    rw [TestTree.preorder, TestTree.preorder]
    refine (each.preorder_perm.trans ?_).cons _
    rw [TestTree.preorderAll_eq, TestTree.preorderAll_eq]
    exact (inTurns_perm ..).flatMap_right _
theorem ArrangedAll.preorder_perm {w : World σ ν} {ts ts' : List (TestTree σ ν)} :
    ArrangedAll env w ts ts' → (TestTree.preorderAll ts').Perm (TestTree.preorderAll ts)
  | .nil => .refl _
  | .cons first others => by
    rw [TestTree.preorderAll, TestTree.preorderAll]
    exact first.preorder_perm.append others.preorder_perm
end

end

section
variable {env : Environment σ ν}

mutual
theorem Arranged.leading {w : World σ ν} {t t' : TestTree σ ν} : Arranged env w t t' → t.Leading → t'.Leading
  | .kept _, leading => leading
  | .executed _ each, leading => by
    have below := TestTree.leading_iff.mp leading
    refine TestTree.leading_iff.mpr (each.leading (UniqueId.Below · _) fun t member => ?_)
    exact below t ((inTurns_perm ..).mem_iff.mp member)
theorem ArrangedAll.leading {w : World σ ν} {ts ts' : List (TestTree σ ν)} (Q : UniqueId → Prop) :
    ArrangedAll env w ts ts' → (∀ t ∈ ts, Q t.descriptor.id ∧ t.Leading) → ∀ t ∈ ts', Q t.descriptor.id ∧ t.Leading
  | .nil, _ => nofun
  | .cons first others, each => by
    have ⟨⟨here, leading⟩, rest⟩ := List.forall_mem_cons.mp each
    exact List.forall_mem_cons.mpr ⟨⟨first.descriptor ▸ here, first.leading leading⟩, others.leading Q rest⟩
end

/-- The tree in its new order is valid, too. -/
theorem Arranged.valid {w : World σ ν} {t t' : TestTree σ ν} (arranged : Arranged env w t t')
    (valid : t.validate = .ok ()) : t'.validate = .ok () := by
  have ⟨wellFormed, distinct, leading⟩ := TestTree.validate_ok_iff.mp valid
  have reordered : (TestTree.ids t').Perm (TestTree.ids t) := arranged.preorder_perm.map _
  exact TestTree.validate_ok_iff.mpr ⟨fun id member => wellFormed id (reordered.mem_iff.mp member),
    reordered.nodup_iff.mpr distinct, arranged.leading leading⟩

end
end TestEngine

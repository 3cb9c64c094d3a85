import Mathlib.Data.List.Nodup
import TestEngine.Blueprint
import TestEngine.TestTree

/-! Identifiers along a tree. Below two nodes side by side no identifier is shared, and a validated tree
uses each identifier once. -/
namespace TestEngine
variable {σ ν : Type}

namespace UniqueId
variable {x y z id : UniqueId}

/-- The identifier of a strict descendant: it leads on from the other. -/
def Below (x id : UniqueId) : Prop := ∃ s rest, x.segments = id.segments ++ s :: rest

theorem below_append (id : UniqueId) (kind value : String) : (id.append kind value).Below id :=
  ⟨⟨kind, value⟩, [], rfl⟩

theorem Below.trans (first : x.Below y) (second : y.Below z) : x.Below z := by
  obtain ⟨s, rest, xy⟩ := first
  obtain ⟨t, more, yz⟩ := second
  exact ⟨t, more ++ s :: rest, by rw [xy, yz]; simp⟩

theorem Below.length (h : x.Below y) : y.segments.length < x.segments.length := by
  obtain ⟨s, rest, same⟩ := h
  rw [same, List.length_append, List.length_cons]
  omega

theorem Below.ne (h : x.Below y) : x ≠ y := by
  rintro rfl
  exact absurd h.length (Nat.lt_irrefl _)

def Within (x id : UniqueId) : Prop := x = id ∨ x.Below id

theorem Within.segments (h : x.Within id) : id.segments <+: x.segments := by
  rcases h with rfl | ⟨s, rest, same⟩
  · exact List.prefix_rfl
  · exact ⟨s :: rest, same.symm⟩

theorem Within.below (h : x.Within y) (lower : y.Below z) : x.Below z := by
  rcases h with rfl | below
  · exact lower
  · exact below.trans lower

/-- Nodes side by side share nothing below them. -/
theorem apart {k v k' v' : String} (first : x.Within (id.append k v)) (second : x.Within (id.append k' v')) :
    id.append k v = id.append k' v' := by
  have same : (id.append k v).segments = (id.append k' v').segments :=
    (List.prefix_of_prefix_length_le first.segments second.segments (by simp [append])).eq_of_length
      (by simp [append])
  cases h : id.append k v
  cases h' : id.append k' v'
  rw [h, h'] at same
  exact congrArg UniqueId.mk same

end UniqueId

namespace TestTree

/-- Every child's identifier adds one segment to that of its parent, and no two children share theirs. -/
inductive Grown : TestTree σ ν → Prop where
  | node : (∀ t ∈ cs, ∃ kind value, t.descriptor.id = d.id.append kind value) →
      (cs.map (·.descriptor.id)).Nodup → (∀ t ∈ cs, Grown t) → Grown (.node d cs)

def ids (t : TestTree σ ν) : List UniqueId := t.preorder.map (·.id)

def idsAll (ts : List (TestTree σ ν)) : List UniqueId := (preorderAll ts).map (·.id)

theorem idsAll_cons (t : TestTree σ ν) (ts : List (TestTree σ ν)) :
    idsAll (t :: ts) = ids t ++ idsAll ts := by
  simp [ids, idsAll, preorderAll]

theorem id_mem_ids (t : TestTree σ ν) : t.descriptor.id ∈ ids t := by
  cases t
  exact List.mem_cons_self

theorem roots_mem_idsAll {t : TestTree σ ν} {ts : List (TestTree σ ν)} (h : t ∈ ts) :
    t.descriptor.id ∈ idsAll ts := by
  induction ts with
  | nil => contradiction
  | cons u us ih =>
    rw [idsAll_cons, List.mem_append]
    rcases List.mem_cons.mp h with rfl | later
    · exact .inl (id_mem_ids _)
    · exact .inr (ih later)

/-- What a check makes of the identifiers that were seen: those of the tree are new, and are added. -/
structure Adds (seen fresh seen' : List UniqueId) : Prop where
  distinct : fresh.Nodup
  new : ∀ x ∈ fresh, x ∉ seen
  members : ∀ x, x ∈ seen' ↔ x ∈ seen ∨ x ∈ fresh

theorem Adds.append (first : Adds seen xs seen') (second : Adds seen' ys seen'') :
    Adds seen (xs ++ ys) seen'' := by
  refine ⟨List.nodup_append'.mpr ⟨first.distinct, second.distinct, ?_⟩, ?_, ?_⟩
  · intro x left right
    exact second.new x right ((first.members x).mpr (.inr left))
  · intro x member
    rcases List.mem_append.mp member with left | right
    · exact first.new x left
    · exact fun before => second.new x right ((first.members x).mpr (.inl before))
  · intro x
    rw [second.members, first.members, List.mem_append, or_assoc]

mutual
theorem check_adds : (t : TestTree σ ν) → ∀ {seen seen' : List UniqueId}, check seen t = .ok seen' →
    Adds seen (ids t) seen'
  | .node d cs, seen, seen', checked => by
    unfold check at checked
    split at checked
    · contradiction
    · split at checked
      · contradiction
      · rename_i unseen
        have here : Adds seen [d.id] (d.id :: seen) :=
          ⟨by simp, by simpa using unseen, fun x => by simp [or_comm]⟩
        exact here.append (checkAll_adds cs checked)
theorem checkAll_adds : (ts : List (TestTree σ ν)) → ∀ {parent : UniqueId} {seen seen' : List UniqueId},
    checkAll parent seen ts = .ok seen' → Adds seen (idsAll ts) seen'
  | [], _, seen, seen', checked => by
    cases checked
    exact ⟨List.nodup_nil, nofun, fun x => by simp [idsAll, preorderAll]⟩
  | t :: ts, _, seen, seen', checked => by
    unfold checkAll at checked
    dsimp only at checked
    split at checked
    · contradiction
    · split at checked
      · contradiction
      · rename_i first
        rw [idsAll_cons]
        exact (check_adds t first).append (checkAll_adds ts checked)
end

theorem validate_nodup {t : TestTree σ ν} (h : t.validate = .ok ()) : (ids t).Nodup := by
  unfold validate at h
  cases checked : check [] t with
  | error e => simp [checked, Except.map] at h
  | ok seen => exact (check_adds t checked).distinct

end TestTree

namespace Blueprint
open TestTree

theorem descriptor_buildAt (id : UniqueId) (enclosing : Option String) (b : Blueprint σ ν) :
    (b.buildAt id enclosing).descriptor.id = id := by
  cases b
  rfl

mutual
/-- What is built has grown, if no identifier is used twice. -/
theorem buildAt_grown : (b : Blueprint σ ν) → ∀ (id : UniqueId) (enclosing : Option String),
    (ids (b.buildAt id enclosing)).Nodup → Grown (b.buildAt id enclosing)
  | .node o bs, id, enclosing, distinct => by
    have below := buildAll_grown bs id (Outline.innerClass? enclosing o.role) (List.nodup_cons.mp distinct).2
    exact .node (fun t member => (below.2 t member).1) below.1 fun t member => (below.2 t member).2
theorem buildAll_grown : (bs : List (Blueprint σ ν)) → ∀ (parent : UniqueId) (enclosing : Option String),
    (idsAll (buildAll parent enclosing bs)).Nodup →
    ((buildAll parent enclosing bs).map (·.descriptor.id)).Nodup ∧ ∀ t ∈ buildAll parent enclosing bs,
      (∃ kind value, t.descriptor.id = parent.append kind value) ∧ Grown t
  | [], _, _, _ => ⟨List.nodup_nil, nofun⟩
  | b :: bs, parent, enclosing, distinct => by
    unfold buildAll at distinct ⊢
    rw [idsAll_cons] at distinct
    obtain ⟨here, later, apart⟩ := List.nodup_append'.mp distinct
    obtain ⟨siblings, grown⟩ := buildAll_grown bs parent enclosing later
    have root := descriptor_buildAt (parent.append b.outline.segment.kind b.outline.segment.value) enclosing b
    refine ⟨List.nodup_cons.mpr ⟨fun shared => ?_, siblings⟩, fun t member => ?_⟩
    · obtain ⟨t, member, same⟩ := List.mem_map.mp shared
      have below := roots_mem_idsAll member
      rw [same] at below
      exact apart (id_mem_ids _) below
    · rcases List.mem_cons.mp member with rfl | member
      · exact ⟨⟨_, _, root⟩, buildAt_grown b _ enclosing here⟩
      · exact grown t member
end

end Blueprint
end TestEngine

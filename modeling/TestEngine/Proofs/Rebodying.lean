import TestEngine.Proofs.Coupling

/-! A tree in which one test has another body. -/
namespace TestEngine
variable {σ ν : Type}

open Execution

/-- The descriptor with another body, if it is that of the test with this identifier. -/
def Descriptor.rebody (id : UniqueId) (body : Invocation → Code σ ν Unit) (d : Descriptor σ ν) : Descriptor σ ν :=
  match d.role with
  | .test m => if d.id = id then { d with role := .test { m with body } } else d
  | _ => d

namespace TestTree

mutual
def rebody (id : UniqueId) (body : Invocation → Code σ ν Unit) : TestTree σ ν → TestTree σ ν
  | .node d cs => .node (d.rebody id body) (rebodyAll id body cs)
def rebodyAll (id : UniqueId) (body : Invocation → Code σ ν Unit) : List (TestTree σ ν) → List (TestTree σ ν)
  | [] => []
  | t :: ts => t.rebody id body :: rebodyAll id body ts
end

mutual
/-- The nodes on the way from the root to the node with this identifier, that node included. -/
def lineage (id : UniqueId) : TestTree σ ν → List (Descriptor σ ν)
  | .node d cs => if (TestTree.node d cs).preorder.any (·.id = id) then d :: lineageAll id cs else []
def lineageAll (id : UniqueId) : List (TestTree σ ν) → List (Descriptor σ ν)
  | [] => []
  | t :: ts => t.lineage id ++ lineageAll id ts
end

end TestTree

section
variable {id : UniqueId} {body : Invocation → Code σ ν Unit} {d : Descriptor σ ν}

theorem Descriptor.rebody_eq_self (other : d.id ≠ id) : d.rebody id body = d := by
  unfold rebody
  split
  · rw [if_neg other]
  · rfl

theorem Descriptor.rebody_test {m : Method σ ν Unit} (test : d.role = .test m) :
    d.rebody d.id body = { d with role := .test { m with body } } := by
  unfold rebody
  rw [test]
  exact if_pos rfl

/-- The descriptor that is left, or the one with the other body. -/
theorem Descriptor.rebody_cases (P : Descriptor σ ν → Prop) (same : P d)
    (other : ∀ m, d.role = .test m → P { d with role := .test { m with body } }) : P (d.rebody id body) := by
  unfold rebody
  split
  · rename_i m test
    split
    · exact other m test
    · exact same
  · exact same

@[simp] theorem Descriptor.rebody_id : (d.rebody id body).id = d.id :=
  rebody_cases (fun x => x.id = d.id) rfl fun _ _ => rfl

@[simp] theorem Descriptor.rebody_locks : (d.rebody id body).locks = d.locks :=
  rebody_cases (fun x => x.locks = d.locks) rfl fun _ _ => rfl

@[simp] theorem Descriptor.rebody_mode : (d.rebody id body).mode = d.mode :=
  rebody_cases (fun x => x.mode = d.mode) rfl fun _ _ => rfl

@[simp] theorem Descriptor.rebody_extensions : (d.rebody id body).extensions = d.extensions :=
  rebody_cases (fun x => x.extensions = d.extensions) rfl fun _ _ => rfl

@[simp] theorem Descriptor.rebody_node : (d.rebody id body).node = d.node :=
  rebody_cases (fun x => x.node = d.node) rfl fun m test => by simp [node, test, Role.shape]

@[simp] theorem Descriptor.rebody_testClass? : (d.rebody id body).testClass? = d.testClass? :=
  rebody_cases (fun x => x.testClass? = d.testClass?) rfl fun m test => by simp [testClass?, test]

@[simp] theorem Descriptor.rebody_template? : (d.rebody id body).template? = d.template? :=
  rebody_cases (fun x => x.template? = d.template?) rfl fun m test => by simp [template?, test]

theorem Descriptor.rebody_scope : (d.rebody id body).role.scope = d.role.scope :=
  rebody_cases (fun x => x.role.scope = d.role.scope) rfl fun m test => by simp [test, Role.scope]

theorem registryFor_rebody (settings : Settings) (r : Registry (Extension σ ν)) :
    registryFor settings (d.rebody id body) r = registryFor settings d r := by
  unfold registryFor
  rw [d.rebody_testClass?, d.rebody_extensions, d.rebody_scope]

end

namespace TestTree
variable {id : UniqueId} {body : Invocation → Code σ ν Unit}

@[simp] theorem descriptor_rebody (t : TestTree σ ν) : (t.rebody id body).descriptor = t.descriptor.rebody id body := by
  cases t
  rfl

mutual
theorem check_rebody : (t : TestTree σ ν) → ∀ seen, check seen (t.rebody id body) = check seen t
  | .node d cs, seen => by
    unfold rebody check
    rw [d.rebody_id, checkAll_rebody cs]
theorem checkAll_rebody : (ts : List (TestTree σ ν)) → ∀ parent seen,
    checkAll parent seen (rebodyAll id body ts) = checkAll parent seen ts
  | [], _, _ => rfl
  | t :: ts, parent, seen => by
    unfold rebodyAll checkAll
    simp only [descriptor_rebody, Descriptor.rebody_id, check_rebody t, checkAll_rebody ts]
end

theorem validate_rebody (t : TestTree σ ν) : (t.rebody id body).validate = t.validate := by
  unfold validate
  rw [check_rebody]

mutual
theorem preorder_rebody : (t : TestTree σ ν) →
    (t.rebody id body).preorder = t.preorder.map (Descriptor.rebody id body)
  | .node d cs => by rw [rebody, preorder, preorder, preorderAll_rebody cs, List.map_cons]
theorem preorderAll_rebody : (ts : List (TestTree σ ν)) →
    preorderAll (rebodyAll id body ts) = (preorderAll ts).map (Descriptor.rebody id body)
  | [] => rfl
  | t :: ts => by rw [rebodyAll, preorderAll, preorderAll, preorder_rebody t, preorderAll_rebody ts, List.map_append]
end

mutual
/-- A tree without the test is left as it is. -/
theorem rebody_eq_self : (t : TestTree σ ν) → (∀ d ∈ t.preorder, d.id ≠ id) → t.rebody id body = t
  | .node d cs, apart => by
    have ⟨here, below⟩ := List.forall_mem_cons.mp apart
    rw [rebody, Descriptor.rebody_eq_self here, rebodyAll_eq_self cs below]
theorem rebodyAll_eq_self : (ts : List (TestTree σ ν)) → (∀ d ∈ preorderAll ts, d.id ≠ id) →
    rebodyAll id body ts = ts
  | [], _ => rfl
  | t :: ts, apart => by
    have ⟨first, others⟩ := List.forall_mem_append.mp apart
    rw [rebodyAll, rebody_eq_self t first, rebodyAll_eq_self ts others]
end

end TestTree

end TestEngine

import TestEngine.Descriptor
import TestEngine.EngineError

/-! Trees of tests, and the check of their identifiers before a run. -/

namespace TestEngine

inductive TestTree (σ ν : Type) where
  | node (descriptor : Descriptor σ ν) (children : List (TestTree σ ν))

namespace TestTree
variable {σ ν : Type}

def descriptor : TestTree σ ν → Descriptor σ ν
  | .node d _ => d

def children : TestTree σ ν → List (TestTree σ ν)
  | .node _ cs => cs

mutual
/-- All nodes, every one before those below it. -/
def preorder : TestTree σ ν → List (Descriptor σ ν)
  | .node d cs => d :: preorderAll cs
def preorderAll : List (TestTree σ ν) → List (Descriptor σ ν)
  | [] => []
  | t :: ts => t.preorder ++ preorderAll ts
end

def size (t : TestTree σ ν) : Nat := t.preorder.length

mutual
/-- Checks a node and those below it against the identifiers seen so far, and adds theirs. -/
def check (seen : List UniqueId) : TestTree σ ν → Except EngineError (List UniqueId)
  | .node d cs =>
    if !d.id.isWellFormed then .error (.invalidUniqueId d.id.render)
    else if seen.contains d.id then .error (.duplicateUniqueId d.id)
    else checkAll d.id (d.id :: seen) cs
/-- Checks the children of the node `parent`. -/
def checkAll (parent : UniqueId) (seen : List UniqueId) :
    List (TestTree σ ν) → Except EngineError (List UniqueId)
  | [] => .ok seen
  | t :: ts =>
    let id := t.descriptor.id
    if id.segments.length ≤ parent.segments.length || !id.hasPrefix parent then
      .error (.detachedChild parent id)
    else
      match check seen t with
      | .error e => .error e
      | .ok seen => checkAll parent seen ts
end

/-- Every identifier is well formed and used once, and every child's leads on from its parent's. -/
def validate (t : TestTree σ ν) : Except EngineError Unit := (check [] t).map fun _ => ()

mutual
def describe : TestTree σ ν → String
  | .node d cs =>
    Text.record "TestDescriptor" [("id", Text.quote d.id.render),
      ("display_name", Text.quote d.displayName), ("kind", d.kind.describe),
      ("node", Text.quote d.role.shape.label), ("children", Text.listed (describeAll cs))]
def describeAll : List (TestTree σ ν) → List String
  | [] => []
  | t :: ts => t.describe :: describeAll ts
end

end TestTree

end TestEngine

import TestEngine.TestTree

/-! Trees of tests before they have identifiers: each node gives the segment it adds to the path. -/

namespace TestEngine

structure Outline (σ ν : Type) where
  segment : Segment
  displayName : String
  kind : NodeKind
  tags : List String := []
  source : Option TestSource := none
  role : Role σ ν
  extensions : List (Declared σ ν) := []
  mode : Option ExecutionMode := none
  locks : List String := []
  timeout : Option Duration := none

namespace Outline
variable {σ ν : Type}

private def named (segmentKind name : String) (kind : NodeKind) (role : Role σ ν) : Outline σ ν :=
  { segment := ⟨segmentKind, name⟩, displayName := name, kind, role }

def engine (name : String) : Outline σ ν := named "engine" name .container .engine

def ofClass (c : TestClass σ ν) : Outline σ ν :=
  { named "class" c.name .container (.testClass c) with source := some (.ofClass c.name) }

def ofTest (m : Method σ ν Unit) : Outline σ ν := named "method" m.name .test (.test m)

def ofTemplate (t : Template σ ν) : Outline σ ν :=
  named "test-template" t.method.name .containerAndTest (.template t)

def ofFactory (f : Factory σ ν) : Outline σ ν :=
  named "test-factory" f.method.name .containerAndTest (.factory f)

/-- The method a node runs, as its source where none is declared. -/
def methodSource? (enclosingClass : Option String) (role : Role σ ν) : Option TestSource :=
  match role with
  | .test m => some (.ofMethod enclosingClass m.name)
  | .template t => some (.ofMethod enclosingClass t.method.name)
  | .factory f => some (.ofMethod enclosingClass f.method.name)
  | .engine | .testClass _ | .dynamic => none

/-- The class that encloses the nodes below, this one included. -/
def innerClass? (enclosingClass : Option String) (role : Role σ ν) : Option String :=
  role.shape.className?.orElse fun _ => enclosingClass

/-- Tags are told in ascending order, each once, however they were declared. -/
def toDescriptor (o : Outline σ ν) (id : UniqueId) (enclosingClass : Option String) :
    Descriptor σ ν :=
  { id, displayName := o.displayName, kind := o.kind, tags := sortDistinct o.tags,
    source := o.source.orElse fun _ => methodSource? enclosingClass o.role, role := o.role,
    extensions := o.extensions, mode := o.mode, locks := o.locks, timeout := o.timeout }

end Outline

inductive Blueprint (σ ν : Type) where
  | node (outline : Outline σ ν) (children : List (Blueprint σ ν))

namespace Blueprint
variable {σ ν : Type}

def outline : Blueprint σ ν → Outline σ ν
  | .node o _ => o

mutual
def buildAt (id : UniqueId) (enclosingClass : Option String) : Blueprint σ ν → TestTree σ ν
  | .node o cs =>
    .node (o.toDescriptor id enclosingClass) (buildAll id (Outline.innerClass? enclosingClass o.role) cs)
def buildAll (parent : UniqueId) (enclosingClass : Option String) :
    List (Blueprint σ ν) → List (TestTree σ ν)
  | [] => []
  | b :: bs =>
    b.buildAt (parent.append b.outline.segment.kind b.outline.segment.value) enclosingClass
      :: buildAll parent enclosingClass bs
end

def build (b : Blueprint σ ν) : TestTree σ ν :=
  b.buildAt (.root b.outline.segment.kind b.outline.segment.value) none

def buildUnder (parent : UniqueId) (b : Blueprint σ ν) : TestTree σ ν :=
  b.buildAt (parent.append b.outline.segment.kind b.outline.segment.value) none

end Blueprint

end TestEngine

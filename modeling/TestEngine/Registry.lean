import TestEngine.TestError

/-!
Registries of extensions. A node's registry sees what is registered above it, and says in which order
the extensions with one capability apply.
-/

namespace TestEngine

inductive Capability where
  | condition
  | beforeAll | afterAll
  | beforeEach | afterEach
  | beforeTestExecution | afterTestExecution
  | parameterResolver
  | instancePostProcessor | instancePreDestroy
  | invocationProvider
  | watcher
  deriving DecidableEq, Repr, Inhabited

namespace Capability

def every : List Capability :=
  [.condition, .beforeAll, .afterAll, .beforeEach, .afterEach, .beforeTestExecution,
    .afterTestExecution, .parameterResolver, .instancePostProcessor, .instancePreDestroy,
    .invocationProvider, .watcher]

theorem mem_every (c : Capability) : c ∈ every := by cases c <;> decide

/-- What follows a step is applied from the inside out. -/
def isAfter : Capability → Bool
  | .afterAll | .afterEach | .afterTestExecution | .instancePreDestroy => true
  | _ => false

def describe : Capability → String
  | .condition => "Condition"
  | .beforeAll => "BeforeAll"
  | .afterAll => "AfterAll"
  | .beforeEach => "BeforeEach"
  | .afterEach => "AfterEach"
  | .beforeTestExecution => "BeforeTestExecution"
  | .afterTestExecution => "AfterTestExecution"
  | .parameterResolver => "ParameterResolver"
  | .instancePostProcessor => "InstancePostProcessor"
  | .instancePreDestroy => "InstancePreDestroy"
  | .invocationProvider => "InvocationProvider"
  | .watcher => "Watcher"

end Capability

inductive Position where
  | outermost
  | default
  | innermost
  deriving DecidableEq, Repr, Inhabited

def Position.describe : Position → String
  | .outermost => "Outermost"
  | .default => "Default"
  | .innermost => "Innermost"

inductive Scope where
  | engine | testClass | method | invocation
  deriving DecidableEq, Repr, Inhabited

def Scope.describe : Scope → String
  | .engine => "Engine"
  | .testClass => "Class"
  | .method => "Method"
  | .invocation => "Invocation"

/-- Things that can be registered: they have a name and some capabilities. -/
class Registrable (ε : Type) where
  name : ε → String
  has : ε → Capability → Bool

structure Registration (ε : Type) where
  extension : ε
  position : Position
  scope : Scope

/-- The registrations made for one node, oldest first. -/
structure Layer (ε : Type) where
  scope : Scope
  registrations : List (Registration ε) := []

/-- A node's own layer and those of the nodes above it, nearest first. -/
structure Registry (ε : Type) where
  own : Layer ε
  above : List (Layer ε) := []

namespace Registry
variable {ε : Type}

def root : Registry ε := { own := { scope := .engine } }

def child (parent : Registry ε) (scope : Scope) : Registry ε :=
  { own := { scope }, above := parent.own :: parent.above }

def layers (r : Registry ε) : List (Layer ε) := r.own :: r.above

variable [Registrable ε]

/-- The registration that holds `position` for `capability`, looked for from the node upwards. -/
def claim? (r : Registry ε) (capability : Capability) (position : Position) :
    Option (Registration ε) :=
  (r.layers.flatMap (·.registrations)).find? fun x =>
    x.position == position && Registrable.has x.extension capability

def alreadyClaimed (e other : ε) (position : Position) (capability : Capability) : TestError :=
  .configuration ("Extension [" ++ Registrable.name e ++ "] cannot claim the " ++ position.describe
    ++ " position for " ++ capability.describe ++ ": already claimed by [" ++ Registrable.name other
    ++ "]")

/-- The first capability of `e` for which `position` is taken, as an error. -/
def conflict? (r : Registry ε) (e : ε) (position : Position) : Option TestError :=
  if position = .default then none
  else Capability.every.findSome? fun capability =>
    if Registrable.has e capability then
      (r.claim? capability position).map fun x => alreadyClaimed e x.extension position capability
    else none

/-- Adds a registration, unless it claims an extreme position that is taken. -/
def register (r : Registry ε) (e : ε) (position : Position) : Except TestError (Registry ε) :=
  match r.conflict? e position with
  | some error => .error error
  | none =>
    .ok { r with own.registrations := r.own.registrations ++ [⟨e, position, r.own.scope⟩] }

/-- The registrations with a capability, from the outermost layer to the node's own. -/
def supporting (r : Registry ε) (capability : Capability) : List (Registration ε) :=
  (r.layers.reverse.flatMap (·.registrations)).filter fun x => Registrable.has x.extension capability

/-- From the outside in: extreme positions at the ends, all else in the order of registration. -/
def inward (r : Registry ε) (capability : Capability) : List (Registration ε) :=
  let found := r.supporting capability
  found.filter (·.position == .outermost) ++ found.filter (·.position == .default)
    ++ found.filter (·.position == .innermost)

def extensions (r : Registry ε) (capability : Capability) : List ε :=
  let found := (r.inward capability).map (·.extension)
  if capability.isAfter then found.reverse else found

end Registry

end TestEngine

import Mathlib.Data.List.Forall2
import TestEngine.Proofs.Gathering
import TestEngine.Proofs.History

/-! What may happen during a visit to a node. The phases of leaves and classes are told by parts of the
deeds of the visit, each with the condition on which it is there; single steps are told by their marks. -/
namespace TestEngine
variable {σ ν : Type}

namespace Deed

/-- The error that a deed of a node counts for in its result. Watchers have no bearing on it. -/
def error? : Deed σ ν → Option TestError
  | .act (.step (.watcher _) _ _) => none
  | .act (.step _ _ (some fault)) => some fault.toError
  | _ => none

/-- The errors that the node's own steps raise, in order. What happens in nodes below is not in it. -/
def raised (deeds : List (Deed σ ν)) : List TestError := deeds.filterMap error?

inductive InTurn : List (Step → Prop) → List (Deed σ ν) → Prop where
  | nil : InTurn [] []
  | step : P s → InTurn plan rest → InTurn (P :: plan) (.act (.step s inside fault) :: rest)

inductive UntilFailure : List (Step → Prop) → List (Deed σ ν) → Prop where
  | nil : UntilFailure [] []
  | failed : P s → UntilFailure (P :: plan) [.act (.step s inside (some fault))]
  | succeeded : P s → UntilFailure plan rest →
      UntilFailure (P :: plan) (.act (.step s inside none) :: rest)

def constructed (acts : List (Act ν)) : List Nat :=
  acts.filterMap fun
    | .step (.construction _ number _) _ none => some number
    | _ => none

/-- The numbers of the instances that a node has made for itself, outermost first. Where one of a chain
cannot be made there are none. -/
def created (deeds : List (Deed σ ν)) : List Nat :=
  deeds.flatMap fun
    | .act (.step .instantiation inside none) => constructed inside
    | _ => []

structure When (condition : Prop) (P : List (Deed σ ν) → Prop) (part : List (Deed σ ν)) : Prop where
  held : condition → P part
  failed : ¬ condition → part = []

namespace When
variable {condition : Prop} {P : List (Deed σ ν) → Prop} {part : List (Deed σ ν)}

theorem there (met : condition) (p : P part) : When condition P part := ⟨fun _ => p, fun missed => absurd met missed⟩

theorem missing (missed : ¬ condition) : When condition P [] := ⟨fun met => absurd met missed, fun _ => rfl⟩

end When

def Visits (m : Manner) (left : Leaving → Prop) (t : TestTree σ ν) (d : Deed σ ν) : Prop :=
  ∃ v inside, d = .visit v inside ∧ .node v.descriptor v.place.below = t ∧ v.manner = m ∧
    v.announced = false ∧ left v.leaving

def PassedOver (reason : String) (trees : List (TestTree σ ν)) (deeds : List (Deed σ ν)) : Prop :=
  List.Forall₂ (Visits (.passedOver reason) (· = .ended)) trees deeds

end Deed

open Deed

namespace Registry
variable (r : Registry (Extension σ ν))

def callbackSteps (capability : Capability) : List (Step → Prop) :=
  (r.extensions capability).map fun e s => s = .callback capability e.name

/-- All pre-destroy callbacks for each of the instances, the last of them first. -/
def farewellSteps (instances : List Nat) : List (Step → Prop) :=
  instances.reverse.flatMap fun number =>
    (r.extensions .instancePreDestroy).map fun e s => s = .preDestroy e.name number

def watcherSteps : List (Step → Prop) := (r.extensions .watcher).map fun e s => s = .watcher e.name

end Registry

def hookSteps (capability : Capability) (c : TestClass σ ν) (hooks : List (Method σ ν Unit)) :
    List (Step → Prop) :=
  hooks.map fun m s => ∃ inst, s = .hook capability c.name m.name inst

structure LeafParts (σ ν : Type) where
  instantiation : List (Deed σ ν)
  beforeEach : List (Deed σ ν)
  beforeExecution : List (Deed σ ν)
  body : List (Deed σ ν)
  afterExecution : List (Deed σ ν)
  afterEach : List (Deed σ ν)
  farewell : List (Deed σ ν)

def LeafParts.deeds (p : LeafParts σ ν) : List (Deed σ ν) :=
  p.instantiation ++ p.beforeEach ++ p.beforeExecution ++ p.body ++ p.afterExecution ++ p.afterEach
    ++ p.farewell

/-- Which steps of a leaf are taken. What comes before the body ends at the first failure; what comes
behind it is taken whatever was raised, from where the way in has come to. -/
structure LeafOrder (r : Registry (Extension σ ν)) (IsBody : List (Deed σ ν) → Prop)
    (p : LeafParts σ ν) : Prop where
  instantiation : UntilFailure [(· = .instantiation)] p.instantiation
  beforeEach : When (raised p.instantiation = []) (UntilFailure (r.callbackSteps .beforeEach)) p.beforeEach
  beforeExecution : When (raised (p.instantiation ++ p.beforeEach) = [])
    (UntilFailure (r.callbackSteps .beforeTestExecution)) p.beforeExecution
  body : When (raised (p.instantiation ++ p.beforeEach ++ p.beforeExecution) = []) IsBody p.body
  afterExecution : When (raised (p.instantiation ++ p.beforeEach) = [])
    (InTurn (r.callbackSteps .afterTestExecution)) p.afterExecution
  afterEach : When (raised p.instantiation = []) (InTurn (r.callbackSteps .afterEach)) p.afterEach
  farewell : InTurn (r.farewellSteps (created p.instantiation)) p.farewell

theorem LeafOrder.mono {r : Registry (Extension σ ν)} {IsBody IsBody' : List (Deed σ ν) → Prop}
    {p : LeafParts σ ν} (h : LeafOrder r IsBody p) (implies : IsBody p.body → IsBody' p.body) :
    LeafOrder r IsBody' p :=
  { h with body := ⟨fun entered => implies (h.body.held entered), h.body.failed⟩ }

def MethodBody (m : String) (deeds : List (Deed σ ν)) : Prop :=
  ∃ inst inside fault, deeds = [.act (.step (.body m inst) inside fault)]

/-- The nodes visited are made below the node with this identifier, each behind those with a smaller
number, all with a number above `low` and none with one above `high`. -/
inductive Numbered (parent : UniqueId) : Nat → Nat → List (Deed σ ν) → Prop where
  | nil : low ≤ high → Numbered parent low high []
  | act : Numbered parent low high rest → Numbered parent low high (.act a :: rest)
  | visit : low < number → v.announced = true → v.leaving = .ended →
      v.id = parent.append kind ("#" ++ toString number) → Numbered parent number high rest →
      Numbered parent low high (.visit v inside :: rest)

/-- The deeds of a factory's body: if its method makes a stream, the nodes of that are executed. -/
def FactoryBody (parent : UniqueId) (m : String) (deeds : List (Deed σ ν)) : Prop :=
  ∃ inst inside fault expansion high, deeds = .act (.step (.body m inst) inside fault) :: expansion ∧
    (fault ≠ none → expansion = []) ∧ Numbered parent 0 high expansion

namespace Place

def frame (p : Place σ ν) : Frame σ ν :=
  { descriptor := p.descriptor, registry := p.registry, lifecycle := p.lifecycle, held := p.held }

def runsBeside (settings : Settings) (p : Place σ ν) (t : TestTree σ ν) : Bool :=
  Execution.isConcurrent settings p.frame t.descriptor

end Place

/-- All trees below are executed, first those on the same thread. Only one that runs beside its siblings
may be left by a panic. -/
def ChildrenExecuted (settings : Settings) (p : Place σ ν) (deeds : List (Deed σ ν)) : Prop :=
  ∃ sameThread concurrent, deeds = sameThread ++ concurrent ∧
    List.Forall₂ (Visits .executed (· = .ended)) (p.below.filter (!p.runsBeside settings ·)) sameThread ∧
    List.Forall₂ (Visits .executed fun l => l = .ended ∨ ∃ payload, l = .torn payload)
      (p.below.filter (p.runsBeside settings ·)) concurrent

def ChildrenTorn (payload : PanicPayload) (below : List (TestTree σ ν)) (deeds : List (Deed σ ν)) : Prop :=
  ∃ before t d, deeds = before ++ [d] ∧
    (∀ e ∈ before, ∃ t ∈ below, Visits .executed (· = .ended) t e) ∧
    t ∈ below ∧ Visits .executed (· = .torn payload) t d

structure ClassParts (σ ν : Type) where
  setUp : List (Deed σ ν)
  beforeAll : List (Deed σ ν)
  beforeHooks : List (Deed σ ν)
  children : List (Deed σ ν)
  afterHooks : List (Deed σ ν)
  afterAll : List (Deed σ ν)
  farewell : List (Deed σ ν)

def ClassParts.deeds (p : ClassParts σ ν) : List (Deed σ ν) :=
  p.setUp ++ p.beforeAll ++ p.beforeHooks ++ p.children ++ p.afterHooks ++ p.afterAll ++ p.farewell

/-- The steps that set a class up: its hooks are checked, and the instance for all tests is made if there
is one. -/
def setUpSteps : Lifecycle → List (Step → Prop)
  | .perMethod => [(· = .check)]
  | .perClass => [(· = .check), (· = .instantiation)]

/-- The way into a class, which ends at the first failure. Hooks on no instance are a failure where each
test has its own. -/
structure ClassEntry (settings : Settings) (place : Place σ ν) (c : TestClass σ ν)
    (p : ClassParts σ ν) : Prop where
  setUp : UntilFailure (setUpSteps place.lifecycle) p.setUp
  placed : place.lifecycle = .perMethod →
    (raised p.setUp = [] ↔ ∀ m ∈ c.beforeAll ++ c.afterAll, m.isStatic)
  beforeAll : When (raised p.setUp = []) (UntilFailure (place.registry.callbackSteps .beforeAll))
    p.beforeAll
  beforeHooks : When (raised (p.setUp ++ p.beforeAll) = [])
    (UntilFailure (hookSteps .beforeAll c (orderHooks (Execution.hookOrder settings c) c.beforeAll)))
    p.beforeHooks

/-- Which steps of a class are taken. The children run unless the way in has failed, and are skipped with
the message of that failure if it has. What comes behind them is taken whatever was raised, from where
the way in has come to. -/
structure ClassOrder (settings : Settings) (place : Place σ ν) (c : TestClass σ ν)
    (p : ClassParts σ ν) : Prop extends ClassEntry settings place c p where
  children : raised (p.setUp ++ p.beforeAll ++ p.beforeHooks) = [] →
    ChildrenExecuted settings place p.children
  childrenSkipped : ∀ e, raised (p.setUp ++ p.beforeAll ++ p.beforeHooks) = [e] →
    PassedOver ("Container setup failed: " ++ e.message) place.below p.children
  oneFailure : (raised (p.setUp ++ p.beforeAll ++ p.beforeHooks)).length ≤ 1
  afterHooks : When (raised (p.setUp ++ p.beforeAll) = [])
    (InTurn (hookSteps .afterAll c (orderHooks (Execution.hookOrder settings c) c.afterAll))) p.afterHooks
  afterAll : When (raised p.setUp = []) (InTurn (place.registry.callbackSteps .afterAll)) p.afterAll
  farewell : InTurn (place.registry.farewellSteps (created p.setUp)) p.farewell

/-- A class that a panic leaves: it is on the way through its children, which one of them has left. -/
structure ClassTorn (settings : Settings) (place : Place σ ν) (c : TestClass σ ν) (payload : PanicPayload)
    (p : ClassParts σ ν) : Prop extends ClassEntry settings place c p where
  entered : raised (p.setUp ++ p.beforeAll ++ p.beforeHooks) = []
  children : ChildrenTorn payload place.below p.children
  afterHooks : p.afterHooks = []
  afterAll : p.afterAll = []
  farewell : p.farewell = []

/-- The deeds of a template: its providers are asked whether they support it, and the invocations of
those that do are executed. -/
def TemplateCourse (parent : UniqueId) (deeds : List (Deed σ ν)) : Prop :=
  ∃ high, Numbered parent 0 high deeds

/-- A template that a panic leaves: it is the panic of a provider that was asked for its support. -/
def TemplateTorn (payload : PanicPayload) (deeds : List (Deed σ ν)) : Prop :=
  ∃ (acts : List (Act ν)) (extension : String) (inside : List (Act ν)), deeds = acts.map .act ++
    [.act (.step (.supports extension) inside (some (.panic payload)))]

/-- The template that a node made at run time is an invocation of, if it is one. -/
def Place.template? (path : List (Place σ ν)) : Option (Template σ ν) :=
  match path with
  | [] => none
  | p :: _ =>
    match p.descriptor.role with
    | .template t => some t
    | _ => none

def leafBody? (path : List (Place σ ν)) (d : Descriptor σ ν) : Option (List (Deed σ ν) → Prop) :=
  match d.role with
  | .test m => some (MethodBody m.name)
  | .factory f => some (FactoryBody d.id f.method.name)
  | .dynamic => (Place.template? path).map fun t => MethodBody t.method.name
  | .engine | .testClass _ | .template _ => none

/-- What a node does between its start and the closing of its store. -/
inductive Course (settings : Settings) (path : List (Place σ ν)) (place : Place σ ν) :
    List (Deed σ ν) → Prop where
  | leaf : leafBody? path place.descriptor = some body → LeafOrder place.registry body p →
      Course settings path place p.deeds
  | testClass : place.descriptor.role = .testClass c → ClassOrder settings place c p →
      Course settings path place p.deeds
  | template : place.descriptor.role = .template t → TemplateCourse place.descriptor.id deeds →
      Course settings path place deeds
  | container : leafBody? path place.descriptor = none →
      place.descriptor.role = .engine ∨ place.descriptor.role = .dynamic →
      ChildrenExecuted settings place deeds → Course settings path place deeds

inductive CourseTorn (settings : Settings) (path : List (Place σ ν)) (place : Place σ ν)
    (payload : PanicPayload) : List (Deed σ ν) → Prop where
  | testClass : place.descriptor.role = .testClass c → ClassTorn settings place c payload p →
      CourseTorn settings path place payload p.deeds
  | template : place.descriptor.role = .template t → TemplateTorn payload deeds →
      CourseTorn settings path place payload deeds
  | container : leafBody? path place.descriptor = none →
      place.descriptor.role = .engine ∨ place.descriptor.role = .dynamic →
      ChildrenTorn payload place.below deeds → CourseTorn settings path place payload deeds

/-- A panic leaves no leaf. -/
theorem CourseTorn.leafBody?_eq_none {settings : Settings} {path : List (Place σ ν)} {place : Place σ ν}
    {ds : List (Deed σ ν)} (h : CourseTorn settings path place payload ds) :
    leafBody? path place.descriptor = none := by
  cases h with
  | testClass role _ | template role _ => simp only [leafBody?, role]
  | container none _ _ => exact none

def Place.watcherSteps (p : Place σ ν) : List (Step → Prop) :=
  if p.descriptor.kind = .test then p.registry.watcherSteps else []

/-- The end of a node that was started: its store is closed, watchers are told, and the result is
reported. -/
def Finish (place : Place σ ν) (deeds : List (Deed σ ν)) : Prop :=
  ∃ inside fault told r, deeds = .act (.step .closeStore inside fault) :: told ++ [.report (.finished r)] ∧
    InTurn place.watcherSteps told

/-- A node reported as skipped: watchers are told, what is below is skipped too, and its store is
closed. -/
def Skip (place : Place σ ν) (reason : String) (deeds : List (Deed σ ν)) : Prop :=
  ∃ told skips inside fault, deeds = .report (.skipped reason) :: told ++ skips
      ++ [.act (.step .closeStore inside fault)] ∧
    InTurn place.watcherSteps told ∧ PassedOver reason place.below skips

def registryAbove (env : Environment σ ν) (path : List (Place σ ν)) : Registry (Extension σ ν) :=
  (path.head?.map (·.registry)).getD env.registry

/-- The registry a node has below a path: that of the node above with its own extensions, unless they
are refused. -/
def registryBelow (env : Environment σ ν) (path : List (Place σ ν)) (d : Descriptor σ ν) :
    Registry (Extension σ ν) :=
  match Execution.registryFor env.settings d (registryAbove env path) with
  | .ok registry => registry
  | .error _ => registryAbove env path

def lifecycleBelow (settings : Settings) (path : List (Place σ ν)) (d : Descriptor σ ν) : Lifecycle :=
  match d.testClass? with
  | some c => c.lifecycle.getD settings.defaultLifecycle
  | none => (path.head?.map (·.lifecycle)).getD settings.defaultLifecycle

/-- The marks of a node that is come to: its extensions are registered and its conditions asked. -/
def admission (inside : List (Act ν)) (fault : Option Fault) : List (Deed σ ν) :=
  [.act (.step .registration [] none), .act (.step .conditions inside fault)]

/-- What happens inside a visit that comes to its end. -/
inductive Conduct (env : Environment σ ν) (path : List (Place σ ν)) (v : Visit σ ν) :
    List (Deed σ ν) → Prop where
  /-- Its extensions are refused. -/
  | refused : v.manner = .executed →
      Execution.registryFor env.settings v.descriptor (registryAbove env path) = .error e →
      PassedOver ("Extension registration failed: " ++ e.message) v.place.below skips →
      Finish v.place finish →
      Conduct env path v
        (.act (.step .registration [] (some (.error e))) :: .report .started :: skips ++ finish)
  | disabled : v.manner = .executed → Skip v.place reason skip →
      Conduct env path v (admission inside none ++ skip)
  /-- A condition fails. -/
  | unclear : v.manner = .executed →
      PassedOver ("Condition evaluation failed: " ++ fault.toError.message) v.place.below skips →
      Finish v.place finish →
      Conduct env path v (admission inside (some fault) ++ .report .started :: skips ++ finish)
  | entered : v.manner = .executed → Course env.settings path v.place course → Finish v.place finish →
      Conduct env path v (admission inside none ++ .report .started :: course ++ finish)
  | passedOver : v.manner = .passedOver reason → Skip v.place reason skip → Conduct env path v skip
  | made : v.manner = .made → Numbered v.id 0 high course → Finish v.place finish →
      Conduct env path v (.report .started :: course ++ finish)

/-- What a visit to a node is held to apart from what happens inside. -/
structure Admissible (env : Environment σ ν) (path : List (Place σ ν)) (v : Visit σ ν) : Prop where
  registry : v.place.registry = registryBelow env path v.descriptor
  lifecycle : v.place.lifecycle = lifecycleBelow env.settings path v.descriptor
  /-- A node is declared below the node above it, or made at run time. -/
  declared : v.announced = false → ∀ p ∈ path.head?, .node v.descriptor v.place.below ∈ p.below
  dynamic : v.announced = true → v.descriptor.role = .dynamic ∧ v.place.below = []

/-- What a single visit is held to. -/
structure Law (env : Environment σ ν) (path : List (Place σ ν)) (v : Visit σ ν)
    (inside : List (Deed σ ν)) : Prop extends Admissible env path v where
  ended : v.leaving = .ended → Conduct env path v inside
  torn : ∀ payload, v.leaving = .torn payload → v.manner = .executed ∧ ∃ asked course,
    inside = admission asked none ++ .report .started :: course ∧
      CourseTorn env.settings path v.place payload course
  /-- Only a visit that comes to its end has a result, and it tells the errors of the node's own steps. -/
  result : ∀ r, .report (.finished r) ∈ inside → v.leaving = .ended ∧ r.SumsUp (raised inside)

end TestEngine

import TestEngine.Proofs.Acting
import TestEngine.Proofs.Conduct

/-! How templates and factories run down the streams they are given. Elements are taken one at a time, and
what is done with one comes before the next is drawn. However that ends, the stream is closed. -/
namespace TestEngine
variable {σ ν α β : Type}

open Deed Execution

namespace Action

def inOrder : List (Action σ ν Unit) → σ → List ν × σ
  | [], s => ([], s)
  | action :: rest, s =>
    let (_, notes, s) := action s
    let (more, s) := inOrder rest s
    (notes ++ more, s)

theorem gather_inOrder (c : Collector) (actions : List (Action σ ν Unit)) (s : σ) :
    (gather c actions s).2 = inOrder actions s := by
  induction actions generalizing c s with
  | nil => rfl
  | cons action rest ih => simp only [gather, inOrder, ← ih (c.record (action s).1)]

/-- Whatever some of them raise, all are run. -/
theorem all_inOrder (actions : List (Action σ ν Unit)) (s : σ) : (all actions s).2 = inOrder actions s := by
  rw [← gather_inOrder .empty]
  rcases gathered : gather .empty actions s with ⟨outcome, notes, s'⟩
  cases outcome with
  | error => simp only [all, bind, gathered]
  | ok c => cases primary : c.primary <;> simp [all, bind, gathered, primary, pure, fault]

end Action

def World.behind (w : World σ ν) (actions : List (Action σ ν Unit)) : World σ ν :=
  { w with
    user := (Action.inOrder actions w.user).2
    trace := w.trace ++ ((Action.inOrder actions w.user).1.map Entry.note).toArray }

def Draw.step (d : Draw σ ν α) (user : σ) : Act ν :=
  .step .draw ((d.effect user).1.map .note) (faultOf d.item.outcome)

namespace Stream

def pending (s : Stream σ ν α) : List (Action σ ν Unit) := if s.closed then [] else s.onClose

def remaining (s : Stream σ ν α) : Source σ ν α := if s.closed then .listed [] else s.source

theorem release_inOrder (s : Stream σ ν α) (user : σ) : (s.release user).2 = Action.inOrder s.pending user := by
  unfold release pending
  split
  · rfl
  · exact Action.all_inOrder _ _

def closingStep (s : Stream σ ν α) (user : σ) : Act ν :=
  .step .closeStream ((Action.inOrder s.pending user).1.map .note) (faultOf (s.release user).1)

end Stream

/-- How elements of a source are taken behind some that were drawn before, up to a number of them all if
there is a limit, and up to the first that is an error. Each is used before the next is drawn. -/
inductive Taken (limit : Option Nat) (Use : Descriptor σ ν → Nat → α → List (Deed σ ν) → Prop) :
    Nat → Descriptor σ ν → Source σ ν α → List (Deed σ ν) → List α → Option TestError → Prop where
  | enough : limit = some last → last ≤ drawn → Taken limit Use drawn parent source [] [] none
  | exhausted : source.next? = none → Taken limit Use drawn parent source [] [] none
  | failed : (∀ last ∈ limit, drawn < last) → source.next? = some (d, rest) →
      d.item.outcome = .error fault →
      Taken limit Use drawn parent source [.act (d.step user)] [] (some fault.toError)
  | taken : (∀ last ∈ limit, drawn < last) → source.next? = some (d, rest) → d.item.outcome = .ok x →
      Use parent (drawn + 1) x used → Taken limit Use (drawn + 1) parent rest deeds xs error →
      Taken limit Use drawn parent source (.act (d.step user) :: used ++ deeds) (x :: xs) error

inductive Spent (limit : Option Nat) (Use : Descriptor σ ν → Nat → α → List (Deed σ ν) → Prop) :
    List (Deed σ ν) → Nat → Descriptor σ ν → Stream σ ν α → List α → Prop where
  | closed : Taken limit Use drawn parent stream.remaining deeds xs error →
      Spent limit Use (deeds ++ [.act (stream.closingStep user)]) drawn parent stream xs

/-- Told of code that is run at the end of the path, from one world or another. -/
def Enacts (env : Environment σ ν) (path : List (Place σ ν)) (m : Engine σ ν α) (a : α)
    (told : List (Entry ν)) : Prop :=
  ∃ w w', w.frames.map Frame.site = path.map (·.toSite) ∧ m.goes env w = (.ok a, w') ∧
    w'.trace.toList = w.trace.toList ++ told

/-- The check that something has been made, behind the deeds of making it. It is there to fail only where
nothing else did. -/
def lastCheck (made : List α) (allowZero : Bool) (e : TestError) (deeds : List (Deed σ ν)) : Deed σ ν :=
  .act (.step .check [] (if made.isEmpty && (raised deeds).isEmpty && !allowZero then some (.error e) else none))

structure Visit.MadeAs (v : Visit σ ν) (d : Descriptor σ ν) (m : Manner) : Prop where
  descriptor : v.descriptor = d
  manner : v.manner = m
  announced : v.announced = true
  ended : v.leaving = .ended

/-- How a node that a factory makes is run under its number below the node above. A container spends its
stream before it is finished. -/
inductive Made : Descriptor σ ν → Nat → DynamicNode σ ν → List (Deed σ ν) → Prop where
  | test : v.MadeAs (dynamicDescriptor parent "dynamic-test" index name .test []) .made →
      Finish v.place ending →
      Made parent index (.test name body)
        [.visit v (.report .started :: .act (.step .dynamicBody inside fault) :: ending)]
  | container : v.MadeAs (dynamicDescriptor parent "dynamic-container" index name .container []) .made →
      Spent none Made course 0 v.descriptor children nodes → Finish v.place ending →
      Made parent index (.container name children) [.visit v (.report .started :: course ++ ending)]

/-- How a node that a factory makes is run, with the code that it runs: a test runs its body, at the node and from one
world or another. -/
inductive Ran (env : Environment σ ν) : Descriptor σ ν → Nat → DynamicNode σ ν → List (Deed σ ν) → Prop where
  | test : v.MadeAs (dynamicDescriptor parent "dynamic-test" index name .test []) .made →
      Enacts env (v.place :: above) (perform body).run outcome (Act.entriesAll v.id inside) →
      Finish v.place ending →
      Ran env parent index (.test name body)
        [.visit v (.report .started :: .act (.step .dynamicBody inside (faultOf outcome)) :: ending)]
  | container : v.MadeAs (dynamicDescriptor parent "dynamic-container" index name .container []) .made →
      Spent none (Ran env) course 0 v.descriptor children nodes → Finish v.place ending →
      Ran env parent index (.container name children) [.visit v (.report .started :: course ++ ending)]

inductive MadeInside (env : Environment σ ν) (v : Visit σ ν) : List (Deed σ ν) → Prop where
  | test : v.descriptor.kind = .test → Finish v.place ending →
      MadeInside env v (.report .started :: .act (.step .dynamicBody inside fault) :: ending)
  | container : v.descriptor.kind = .container → Spent none (Ran env) course 0 v.descriptor children nodes →
      Finish v.place ending → MadeInside env v (.report .started :: course ++ ending)

/-- The body of a factory: the stream that its method makes is spent, and there has to be a node in it
unless the factory says otherwise. -/
inductive FactoryExpansion (env : Environment σ ν) (path : List (Place σ ν)) (place : Place σ ν)
    (f : Factory σ ν) : List (Deed σ ν) → Prop where
  | failed : Enacts env (place :: path) (invoke f.method inst).run (.error fault)
        (Act.entriesAll place.descriptor.id inside) →
      FactoryExpansion env path place f [.act (.step (.body f.method.name (inst.map (·.number))) inside (some fault))]
  | spent : Enacts env (place :: path) (invoke f.method inst).run (.ok stream)
        (Act.entriesAll place.descriptor.id inside) →
      Spent none (Ran env) deeds 0 place.descriptor stream nodes →
      FactoryExpansion env path place f
        (.act (.step (.body f.method.name (inst.map (·.number))) inside none) :: deeds ++
          [lastCheck nodes f.allowZero (noDynamicTests place.descriptor.displayName) deeds])

/-- What is done with an invocation of a template that is drawn: a selected one is executed under its
number, and any other is passed over. -/
def Invoked (t : Template σ ν) (template : Descriptor σ ν) (index : Nat)
    (x : TemplateInvocation (Extension σ ν)) (deeds : List (Deed σ ν)) : Prop :=
  if t.selection.all (·.contains index) then
    ∃ v inside, deeds = [.visit v inside] ∧
      v.MadeAs (dynamicDescriptor template "test-template-invocation" index x.displayName .test x.extensions)
        .executed
  else deeds = []

/-- The highest number that a template selects, if it has a selection that selects any. -/
def Template.last? (t : Template σ ν) : Option Nat := t.selection.bind Selection.max?

/-- Invocations come from one provider after another, numbered throughout: each provider is asked for its
stream, and that is spent before the next is asked. An error ends it. -/
inductive Supplied (env : Environment σ ν) (path : List (Place σ ν)) (place : Place σ ν) (t : Template σ ν) :
    Nat → List (String × InvocationProvider σ ν (Extension σ ν)) → List (Deed σ ν) →
    List (TemplateInvocation (Extension σ ν)) → Prop where
  | all : Supplied env path place t drawn [] [] []
  | refused : Enacts env (place :: path) (obtain name p).run (.error fault)
        (Act.entriesAll place.descriptor.id [.step (.provide name) inside (some fault)]) →
      Supplied env path place t drawn ((name, p) :: ps) [.act (.step (.provide name) inside (some fault))] []
  | stopped : Enacts env (place :: path) (obtain name p).run (.ok stream)
        (Act.entriesAll place.descriptor.id [.step (.provide name) inside none]) →
      Spent t.last? (Invoked t) deeds drawn place.descriptor stream xs → raised deeds ≠ [] →
      Supplied env path place t drawn ((name, p) :: ps) (.act (.step (.provide name) inside none) :: deeds) xs
  | further : Enacts env (place :: path) (obtain name p).run (.ok stream)
        (Act.entriesAll place.descriptor.id [.step (.provide name) inside none]) →
      Spent t.last? (Invoked t) deeds drawn place.descriptor stream xs → raised deeds = [] →
      Supplied env path place t (drawn + xs.length) ps rest ys →
      Supplied env path place t drawn ((name, p) :: ps)
        (.act (.step (.provide name) inside none) :: deeds ++ rest) (xs ++ ys)

/-- The registered providers of invocations, with their names, in the order they apply. -/
def Registry.providers (r : Registry (Extension σ ν)) :
    List (String × InvocationProvider σ ν (Extension σ ν)) :=
  (r.extensions .invocationProvider).filterMap fun e => e.invocationProvider.map (e.name, ·)

def SupportAsked (asked : List (Act ν)) : Prop := ∀ a ∈ asked, ∃ name inside, a = .step (.supports name) inside none

/-- What a template does: its providers are asked whether they support it, and those that do supply its
invocations. There has to be one unless the template says otherwise. -/
inductive TemplateExpansion (env : Environment σ ν) (path : List (Place σ ν)) (place : Place σ ν)
    (t : Template σ ν) : List (Deed σ ν) → Prop where
  | unsupported : Enacts env (place :: path)
        (supportingProviders (place.registry.extensions .invocationProvider)) []
        (Act.entriesAll place.descriptor.id asked) → SupportAsked asked →
      TemplateExpansion env path place t
        (asked.map .act ++ [.act (.step .check [] (some (.error (noProvider place.descriptor.displayName))))])
  | supplied : Enacts env (place :: path)
        (supportingProviders (place.registry.extensions .invocationProvider)) providers
        (Act.entriesAll place.descriptor.id asked) → SupportAsked asked →
      providers ≠ [] → providers.Sublist place.registry.providers →
      Supplied env path place t 0 providers deeds xs →
      TemplateExpansion env path place t
        (asked.map .act ++ .act (.step .check [] none) :: deeds ++
          [lastCheck xs t.allowZero (noInvocations place.descriptor.displayName) deeds])

/-- What a node that makes others does between its start and the closing of its store. -/
inductive Generates (env : Environment σ ν) (path : List (Place σ ν)) (place : Place σ ν) :
    List (Deed σ ν) → Prop where
  | template : place.descriptor.role = .template t → TemplateExpansion env path place t deeds →
      Generates env path place deeds
  | factory : place.descriptor.role = .factory f →
      LeafOrder place.registry (FactoryExpansion env path place f) p → Generates env path place p.deeds
  | none : (∀ t, place.descriptor.role ≠ .template t) → (∀ f, place.descriptor.role ≠ .factory f) →
      Generates env path place deeds

/-- What a node does that is skipped. Its conditions may be asked, its watchers are told, and its store is closed.
Within that there is code of the user and nothing else. -/
inductive Act.OfSkip : Act ν → Prop where
  | registration : OfSkip (.step .registration [] none)
  | conditions : (∀ a ∈ inside, AsksCondition a) → OfSkip (.step .conditions inside none)
  | watcher : (∀ a ∈ inside, a.OfUser) → OfSkip (.step (.watcher name) inside fault)
  | closing (notes : List ν) : OfSkip (.step .closeStore (notes.map .note) fault)

/-- The method that a node runs as a test, with its deadline. An invocation has both from its template. -/
def testOf? (path : List (Place σ ν)) (d : Descriptor σ ν) : Option (Method σ ν Unit × Option Duration) :=
  match d.role with
  | .test m => some (m, d.timeout)
  | .dynamic => (Place.template? path).map fun t => (t.method, path.head?.bind (·.descriptor.timeout))
  | .engine | .testClass _ | .template _ | .factory _ => none

/-- As `Enacts`, from a world in which no instance is given up unless invocations may time out. -/
def EnactsFresh (timed : Prop) (env : Environment σ ν) (path : List (Place σ ν)) (m : Engine σ ν α) (a : α)
    (told : List (Entry ν)) : Prop :=
  ∃ w w', w.frames.map Frame.site = path.map (·.toSite) ∧ w.Fresh timed ∧ m.goes env w = (.ok a, w') ∧
    w'.trace.toList = w.trace.toList ++ told

/-- A limit leaves a test without a deadline, unless invocations may time out. -/
def Environment.Permits (timed : Prop) (env : Environment σ ν) (limit : Option Duration) : Prop :=
  timed ∨ limit = none ∧ env.settings.defaultTimeout = none

/-- The body of a test: its method is invoked, at the node and from one world or another. -/
def TestBody (timed : Prop) (env : Environment σ ν) (path : List (Place σ ν)) (place : Place σ ν)
    (m : Method σ ν Unit) (limit : Option Duration) (deeds : List (Deed σ ν)) : Prop :=
  env.Permits timed limit ∧ ∃ inst outcome number inside,
    deeds = [.act (.step (.body m.name number) inside (faultOf outcome))] ∧
    EnactsFresh timed env (place :: path) (invokeTest m limit inst).run outcome
      (Act.entriesAll place.descriptor.id [.step (.body m.name number) inside (faultOf outcome)])

/-- What a node that runs a test does between its start and the closing of its store. -/
def RunsTest (timed : Prop) (env : Environment σ ν) (path : List (Place σ ν)) (place : Place σ ν)
    (deeds : List (Deed σ ν)) : Prop :=
  ∀ m limit, testOf? path place.descriptor = some (m, limit) →
    ∃ p : LeafParts σ ν, deeds = p.deeds ∧ LeafOrder place.registry (TestBody timed env path place m limit) p

def Place.watching (p : Place σ ν) : List (Extension σ ν) :=
  if p.descriptor.kind = .test then p.registry.extensions .watcher else []

/-- Extensions are told one after the other, each by its own code and whatever those before have raised. -/
inductive TellsEach (env : Environment σ ν) (path : List (Place σ ν)) (place : Place σ ν)
    (tell : Watcher σ ν → Program σ ν Unit) : List (Extension σ ν) → List (Deed σ ν) → Prop where
  | nil : TellsEach env path place tell [] []
  | told : e.watcher = some w →
      Enacts env (place :: path) (observe (tell w)).run outcome (Act.entriesAll place.descriptor.id inside) →
      (∀ a ∈ inside, a.OfUser) → TellsEach env path place tell es ds →
      TellsEach env path place tell (e :: es) (.act (.step (.watcher e.name) inside (faultOf outcome)) :: ds)

/-- What a node does before it is told to be skipped or finished: no watcher hears of it. -/
structure Deed.Underway (deeds : List (Deed σ ν)) : Prop where
  unwatched : ∀ a, .act a ∈ deeds → a.Unwatched
  reports : ∀ r, .report r ∈ deeds → r = .started

/-- A result is told to the watchers behind the closing of the store, and then reported. -/
inductive ResultTold (env : Environment σ ν) (path : List (Place σ ν)) (place : Place σ ν) :
    List (Deed σ ν) → Prop where
  | behind (notes : List ν) : TellsEach env path place (verdictOn r) place.watching told →
      ResultTold env path place
        (.act (.step .closeStore (notes.map .note) fault) :: told ++ [.report (.finished r)])

inductive SkipTold (env : Environment σ ν) (path : List (Place σ ν)) (place : Place σ ν) :
    List (Deed σ ν) → Prop where
  | behind : TellsEach env path place (fun w => w.disabled reason) place.watching told → Underway rest →
      SkipTold env path place (.report (.skipped reason) :: told ++ rest)

/-- How a node comes to its end that is skipped or finished. Its watchers are told that once. -/
inductive EndTold (env : Environment σ ν) (path : List (Place σ ν)) (place : Place σ ν) :
    List (Deed σ ν) → Prop where
  | finished : Underway before → ResultTold env path place ending → EndTold env path place (before ++ ending)
  | skipped : Underway before → SkipTold env path place ending → EndTold env path place (before ++ ending)

inductive Act.WatchedAs (kind : NodeKind) : Act ν → Prop where
  | unwatched : a.Unwatched → WatchedAs kind a
  | told : kind = .test → (∀ a ∈ inside, a.Unwatched) → WatchedAs kind (.step (.watcher name) inside fault)
  | cut : kind = .test → (∀ a ∈ inside, a.Unwatched) → WatchedAs kind (.cut (.watcher name) inside)

def heldAbove (path : List (Place σ ν)) : List String := (path.head?.map (·.held)).getD []

def Visit.declared (v : Visit σ ν) : List String :=
  (TestTree.node v.descriptor v.place.below).preorder.flatMap (·.locks)

def Visit.Runs (v : Visit σ ν) : Prop := ∀ reason, v.manner ≠ .passedOver reason

structure Secured (path : List (Place σ ν)) (v : Visit σ ν) : Prop where
  executed : v.manner = .executed → v.locks = locksToTake v.descriptor v.declared (heldAbove path)
  others : v.manner ≠ .executed → v.locks = []
  held : v.Runs → v.place.held = heldAbove path ++ v.locks
  /-- No resources are declared for what is made at run time. -/
  undeclared : v.announced = true ∨ v.manner = .made → v.descriptor.locks = []

def Deed.OnlyPasses (deeds : List (Deed σ ν)) : Prop :=
  ∀ v inside, .visit v inside ∈ deeds → ∃ reason, v.manner = .passedOver reason

/-- What a single visit is held to in a run in which invocations may time out or may not, with the nodes that it
makes, the error that is in front of others, the resources it takes, what it does if it is skipped, and what its
watchers are told. -/
structure FullLaw (timed : Prop) (env : Environment σ ν) (path : List (Place σ ν)) (v : Visit σ ν)
    (inside : List (Deed σ ν)) : Prop extends Law env path v inside where
  generates : v.leaving = .ended → ∀ asked rest, inside = admission asked none ++ .report .started :: rest →
    ∃ course ending, rest = course ++ ending ∧ Generates env path v.place course ∧ Finish v.place ending
  runsTest : v.leaving = .ended → ∀ asked rest, inside = admission asked none ++ .report .started :: rest →
    ∃ course ending, rest = course ++ ending ∧ RunsTest timed env path v.place course ∧ Finish v.place ending
  made : v.leaving = .ended → v.manner = .made → MadeInside env v inside
  leading : ∀ r, .report (.finished r) ∈ inside → Foremost r.error? (raised inside)
  skipped : v.leaving = .ended → ∀ reason, .report (.skipped reason) ∈ inside → ∀ a, .act a ∈ inside → a.OfSkip
  passes : ∀ reason, v.manner = .passedOver reason → OnlyPasses inside
  secured : Secured path v
  watched : ∀ a, .act a ∈ inside → a.WatchedAs v.descriptor.kind
  endTold : v.leaving = .ended → EndTold env path v.place inside

end TestEngine

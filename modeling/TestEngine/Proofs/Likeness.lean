import TestEngine.Proofs.Leaves
import TestEngine.Proofs.Regimes
import TestEngine.Proofs.Registering

/-! Likeness of user code. Two programs are alike if they make the same requests whichever of two related views each
of them is shown, and end in related values; code is blind to what a relation on views lets differ if it is like
itself. -/
namespace TestEngine
variable {σ ν α β γ : Type} {S : View → View → Prop}

open Execution

/-- Two outcomes agree: their values are related, or they are the same error. -/
inductive Agree {ε : Type} (A : α → β → Prop) : Except ε α → Except ε β → Prop where
  | ok {a b} (related : A a b) : Agree A (.ok a) (.ok b)
  | error (e : ε) : Agree A (.error e) (.error e)

namespace Agree
variable {ε : Type} {A B : α → β → Prop}

theorem of_eq {x y : Except ε α} (same : x = y) : Agree Eq x y := by
  subst same
  cases x with
  | ok a => exact .ok rfl
  | error e => exact .error e

theorem eq {x y : Except ε α} (h : Agree Eq x y) : x = y := by
  cases h with
  | ok same => rw [same]
  | error e => rfl

theorem mono {x : Except ε α} {y : Except ε β} (h : Agree A x y) (weaker : ∀ a b, A a b → B a b) :
    Agree B x y := by
  cases h with
  | ok related => exact .ok (weaker _ _ related)
  | error e => exact .error e

theorem of_error {e : ε} {y : Except ε β} (h : Agree A (.error e) y) : y = .error e := by
  cases h
  rfl

theorem of_ok {a : α} {y : Except ε β} (h : Agree A (.ok a) y) : ∃ b, y = .ok b ∧ A a b := by
  cases h with
  | ok related => exact ⟨_, rfl, related⟩

end Agree

/-- Values that are the same, and of which something is known. -/
def SameAnd (G : α → Prop) (a b : α) : Prop := a = b ∧ G a

namespace Program

/-- The requests of two programs are the same, one after the other, as long as the views they are shown are related
by `S`; the values they end in are related by `A`. -/
inductive Alike (S : View → View → Prop) (A : α → β → Prop) : Program σ ν α → Program σ ν β → Prop where
  | done {a b} (related : A a b) : Alike S A (.done a) (.done b)
  | panic (payload : PanicPayload) : Alike S A (.panic payload) (.panic payload)
  | note (n : ν) {p q} (next : Alike S A p q) : Alike S A (.note n p) (.note n q)
  | state (change : σ → σ) {p q} (next : ∀ s, Alike S A (p s) (q s)) : Alike S A (.state change p) (.state change q)
  | look {p q} (next : ∀ v v', S v v' → Alike S A (p v) (q v')) : Alike S A (.look p) (.look q)
  | publish (node : Node) (values : Dictionary String) {p q} (next : Alike S A p q) :
      Alike S A (.publish node values p) (.publish node values q)
  | sleep (time : Duration) {p q} (next : Alike S A p q) : Alike S A (.sleep time p) (.sleep time q)
  | store (levelsUp : Nat) (key : Store.Key) (request : Store.Request σ ν) {p q}
      (next : ∀ reply, Alike S A (p reply) (q reply)) :
      Alike S A (.store levelsUp key request p) (.store levelsUp key request q)
  | fresh {p q} (next : ∀ n, Alike S A (p n) (q n)) : Alike S A (.fresh p) (.fresh q)
  | lockInnermost {p q} (next : ∀ content, Alike S A (p content) (q content)) :
      Alike S A (.lockInnermost p) (.lockInnermost q)
  | resolve (executable : String) (parameters : List Parameter) {p q} (next : ∀ reply, Alike S A (p reply) (q reply)) :
      Alike S A (.resolve executable parameters p) (.resolve executable parameters q)
  /-- Of a configuration that conditions are evaluated with, only what it deactivates matters. -/
  | evaluate {c c' : Configuration} {p q} (same : deactivatedBy Glob.library c = deactivatedBy Glob.library c')
      (next : ∀ reply, Alike S A (p reply) (q reply)) : Alike S A (.evaluate c p) (.evaluate c' q)

/-- The program tells no two related views apart, and what it ends in is known to be `G`. -/
def BlindUpTo (S : View → View → Prop) (G : α → Prop) (p : Program σ ν α) : Prop := p.Alike S (SameAnd G) p

/-- The program tells no two related views apart. -/
def Blind (S : View → View → Prop) (p : Program σ ν α) : Prop := p.Alike S Eq p

theorem Alike.mono {A B : α → β → Prop} {p : Program σ ν α} {q : Program σ ν β} (h : p.Alike S A q)
    (weaker : ∀ a b, A a b → B a b) : p.Alike S B q := by
  induction h with
  | done related => exact .done (weaker _ _ related)
  | panic payload => exact .panic payload
  | note n _ ih => exact .note n ih
  | state change _ ih => exact .state change ih
  | look _ ih => exact .look ih
  | publish node values _ ih => exact .publish node values ih
  | sleep time _ ih => exact .sleep time ih
  | store levelsUp key request _ ih => exact .store levelsUp key request ih
  | fresh _ ih => exact .fresh ih
  | lockInnermost _ ih => exact .lockInnermost ih
  | resolve executable parameters _ ih => exact .resolve executable parameters ih
  | evaluate same _ ih => exact .evaluate same ih

/-- A program is like itself where it is shown the same view. -/
theorem blind_eq (p : Program σ ν α) : p.Blind Eq := by
  unfold Blind
  induction p with
  | done value => exact .done rfl
  | panic payload => exact .panic payload
  | note n _ ih => exact .note n ih
  | state change _ ih => exact .state change ih
  | look next ih =>
    refine .look fun v v' same => ?_
    subst same
    exact ih v
  | publish node values _ ih => exact .publish node values ih
  | sleep time _ ih => exact .sleep time ih
  | store levelsUp key request _ ih => exact .store levelsUp key request ih
  | fresh _ ih => exact .fresh ih
  | lockInnermost _ ih => exact .lockInnermost ih
  | resolve executable parameters _ ih => exact .resolve executable parameters ih
  | evaluate c _ ih => exact .evaluate rfl ih

theorem Blind.upTo {p : Program σ ν α} {G : α → Prop} (blind : p.Blind S) (known : ∀ a, G a) : p.BlindUpTo S G :=
  blind.mono fun a _ same => ⟨same, known a⟩

end Program

/-- A draw of the source yields the value. -/
def Source.Gives : Source σ ν α → α → Prop
  | .listed draws, a => ∃ d ∈ draws, d.item = .value a
  | .endless draw, a => ∃ i, (draw i).item = .value a

/-- Where the outcome is a stream, all that the stream gives is `G`. -/
def Gives {ε : Type} (G : α → Prop) : Except ε (Stream σ ν α) → Prop
  | .ok stream => ∀ a, stream.source.Gives a → G a
  | .error _ => True

def Method.Blind (S : View → View → Prop) (m : Method σ ν α) : Prop := ∀ inv, (m.body inv).Blind S

def EachCallback.Blind (S : View → View → Prop) : EachCallback σ ν → Prop
  | .code own => Program.Blind S own
  | .hook _ m => m.Blind S

def ParameterResolver.Blind (S : View → View → Prop) (r : ParameterResolver σ ν) : Prop :=
  ∀ p, (r.supports p).Blind S ∧ (r.resolve p).Blind S

structure Watcher.Blind (S : View → View → Prop) (w : Watcher σ ν) : Prop where
  disabled : ∀ reason, (w.disabled reason).Blind S
  successful : w.successful.Blind S
  aborted : ∀ e, (w.aborted e).Blind S
  failed : ∀ e, (w.failed e).Blind S

/-- A provider is blind, and the extensions of the invocations that it supplies are in `X`. -/
structure InvocationProvider.BlindUpTo (S : View → View → Prop) (X : Extension σ ν → Prop)
    (p : InvocationProvider σ ν (Extension σ ν)) : Prop where
  supports : p.supports.Blind S
  provide : p.provide.BlindUpTo S (Gives fun i => ∀ x ∈ i.extensions, X x)

namespace Extension

/-- The code of an extension for one capability tells no related views apart; the extensions of the invocations that
it supplies are in `X`. -/
def BlindFor (S : View → View → Prop) (X : Extension σ ν → Prop) (e : Extension σ ν) : Capability → Prop
  | .condition => ∀ code ∈ e.condition, code.Blind S
  | .beforeAll => ∀ code ∈ e.beforeAll, code.Blind S
  | .afterAll => ∀ code ∈ e.afterAll, code.Blind S
  | .beforeEach => ∀ c ∈ e.beforeEach, c.Blind S
  | .afterEach => ∀ c ∈ e.afterEach, c.Blind S
  | .beforeTestExecution => ∀ code ∈ e.beforeTestExecution, code.Blind S
  | .afterTestExecution => ∀ code ∈ e.afterTestExecution, code.Blind S
  | .parameterResolver => ∀ r ∈ e.parameterResolver, r.Blind S
  | .instancePostProcessor => ∀ f ∈ e.instancePostProcessor, ∀ inst, (f inst).Blind S
  | .instancePreDestroy => ∀ f ∈ e.instancePreDestroy, ∀ inst, (f inst).Blind S
  | .invocationProvider => ∀ p ∈ e.invocationProvider, p.BlindUpTo S X
  | .watcher => ∀ w ∈ e.watcher, w.Blind S

theorem BlindFor.mono {X Y : Extension σ ν → Prop} {e : Extension σ ν} (weaker : ∀ y, X y → Y y)
    {capability : Capability} (blind : e.BlindFor S X capability) : e.BlindFor S Y capability := by
  cases capability with
  | invocationProvider =>
    refine fun p member => ⟨(blind p member).supports,
      (blind p member).provide.mono fun outcome _ ⟨same, given⟩ => ⟨same, ?_⟩⟩
    cases outcome with
    | ok stream => exact fun i gives y among => weaker y (given i gives y among)
    | error e => trivial
  | condition | beforeAll | afterAll | beforeEach | afterEach | beforeTestExecution | afterTestExecution
  | parameterResolver | instancePostProcessor | instancePreDestroy | watcher => exact blind

/-- No code of the extension tells related views apart, nor code of extensions that it supplies. -/
def Blind (S : View → View → Prop) (e : Extension σ ν) : Prop :=
  ∃ X : Extension σ ν → Prop, X e ∧ ∀ x, X x → ∀ capability, x.BlindFor S X capability

theorem Blind.blindFor {e : Extension σ ν} (blind : e.Blind S) (capability : Capability) :
    e.BlindFor S (Extension.Blind S) capability :=
  have ⟨X, here, closed⟩ := blind
  (closed e here capability).mono fun _ member => ⟨X, member, closed⟩

/-- An extension that supplies no others is blind if its code is. -/
theorem Blind.of_blindFor {e : Extension σ ν} (blind : ∀ capability, e.BlindFor S (fun _ => False) capability) :
    e.Blind S := by
  refine ⟨(· = e), rfl, ?_⟩
  rintro x rfl capability
  exact (blind capability).mono fun _ none => none.elim

theorem blind_resolver (name : String) {r : ParameterResolver σ ν} (blind : r.Blind S) :
    ({ name, parameterResolver := some r } : Extension σ ν).Blind S :=
  .of_blindFor fun capability => by
    cases capability <;> intro code member <;> cases member
    exact blind

theorem blind_eq (e : Extension σ ν) : e.Blind Eq := by
  refine ⟨fun _ => True, trivial, fun _ _ capability => ?_⟩
  cases capability with
  | condition | beforeAll | afterAll | beforeTestExecution | afterTestExecution => exact fun code _ => code.blind_eq
  | beforeEach | afterEach =>
    intro c _
    cases c with
    | code own => exact own.blind_eq
    | hook _ m => exact fun inv => (m.body inv).blind_eq
  | parameterResolver => exact fun r _ p => ⟨(r.supports p).blind_eq, (r.resolve p).blind_eq⟩
  | instancePostProcessor | instancePreDestroy => exact fun f _ inst => (f inst).blind_eq
  | invocationProvider =>
    refine fun p _ => ⟨p.supports.blind_eq, p.provide.blind_eq.upTo fun outcome => ?_⟩
    cases outcome with
    | ok stream => exact fun _ _ _ _ => trivial
    | error e => trivial
  | watcher =>
    exact fun w _ => ⟨fun _ => (w.disabled _).blind_eq, w.successful.blind_eq, fun _ => (w.aborted _).blind_eq,
      fun _ => (w.failed _).blind_eq⟩

end Extension

namespace DynamicNode

/-- No code of the node tells related views apart, nor code of nodes that its streams give. -/
inductive Blind (S : View → View → Prop) : DynamicNode σ ν → Prop where
  | test (name : String) {body : Code σ ν Unit} (blind : Program.Blind S body) : Blind S (.test name body)
  | container (name : String) {children : Stream σ ν (DynamicNode σ ν)}
      (blind : ∀ n, children.source.Gives n → Blind S n) : Blind S (.container name children)

mutual
theorem blind_eq : (n : DynamicNode σ ν) → n.Blind Eq
  | .test name body => .test name body.blind_eq
  | .container name ⟨source, _, _⟩ => .container name (source_blind_eq source)
theorem source_blind_eq : (source : Source σ ν (DynamicNode σ ν)) → ∀ n, source.Gives n → n.Blind Eq
  | .listed draws => fun n ⟨d, member, same⟩ => listed_blind_eq draws d member n same
  | .endless draw => fun n ⟨i, same⟩ => draw_blind_eq (draw i) n same
theorem listed_blind_eq : (draws : List (Draw σ ν (DynamicNode σ ν))) →
    ∀ d ∈ draws, ∀ n, d.item = .value n → n.Blind Eq
  | [] => nofun
  | d :: draws => List.forall_mem_cons.mpr ⟨draw_blind_eq d, listed_blind_eq draws⟩
theorem draw_blind_eq : (d : Draw σ ν (DynamicNode σ ν)) → ∀ n, d.item = .value n → n.Blind Eq
  | ⟨_, .value n⟩ => fun _ same => Item.value.inj same ▸ n.blind_eq
  | ⟨_, .error _⟩ | ⟨_, .panic _⟩ => nofun
end

end DynamicNode

namespace Registry
variable {r r' : Registry (Extension σ ν)}

theorem mem_all_of_extensions {e : Extension σ ν} {capability : Capability} (h : e ∈ r.extensions capability) :
    e ∈ r.all := by
  obtain ⟨x, found, rfl⟩ := supporting_of_mem h
  refine List.mem_map_of_mem ?_
  simpa only [List.mem_flatMap, List.mem_reverse] using List.mem_of_mem_filter found

/-- No code of what is registered tells related views apart. -/
def Blind (S : View → View → Prop) (r : Registry (Extension σ ν)) : Prop := ∀ e ∈ r.all, e.Blind S

theorem Blind.child (blind : r.Blind S) (scope : Scope) : (r.child scope).Blind S :=
  fun e member => blind e (mem_all_child.mp member)

theorem Blind.registerAll {ds : List (Declared σ ν)} (blind : r.Blind S) (own : ∀ x ∈ ds, x.extension.Blind S)
    (registered : Execution.registerAll r ds = .ok r') : r'.Blind S := forall_registerAll registered blind own

end Registry

structure TestClass.Blind (S : View → View → Prop) (c : TestClass σ ν) : Prop where
  constructor : c.constructor.Blind S
  hooks : ∀ m ∈ c.beforeAll ++ c.afterAll ++ c.beforeEach ++ c.afterEach, m.Blind S

def Factory.Blind (S : View → View → Prop) (f : Factory σ ν) : Prop :=
  ∀ inv, (f.method.body inv).BlindUpTo S (Gives (DynamicNode.Blind S))

def Role.Blind (S : View → View → Prop) : Role σ ν → Prop
  | .engine | .dynamic => True
  | .testClass c => c.Blind S
  | .test m => m.Blind S
  | .template t => t.method.Blind S
  | .factory f => f.Blind S

/-- No code that is declared for the node tells related views apart. -/
structure Descriptor.Blind (S : View → View → Prop) (d : Descriptor σ ν) : Prop where
  role : d.role.Blind S
  extensions : ∀ x ∈ d.extensions, x.extension.Blind S

theorem Descriptor.blind_eq (d : Descriptor σ ν) : d.Blind Eq := by
  have method {α : Type} (m : Method σ ν α) : m.Blind Eq := fun inv => (m.body inv).blind_eq
  refine ⟨?_, fun x _ => x.extension.blind_eq⟩
  cases d.role with
  | engine | dynamic => trivial
  | testClass c => exact ⟨method _, fun m _ => method m⟩
  | test m => exact method m
  | template t => exact method t.method
  | factory f =>
    refine fun inv => (f.method.body inv).blind_eq.upTo fun outcome => ?_
    cases outcome with
    | ok _ => exact fun n _ => n.blind_eq
    | error _ => trivial

theorem Extension.blind_beforeEachHook (className : String) {m : Method σ ν Unit} (blind : m.Blind S) :
    (Extension.beforeEachHook className m).Blind S :=
  .of_blindFor fun capability => by
    cases capability <;> intro code member <;> cases member
    exact blind

theorem Extension.blind_afterEachHook (className : String) {m : Method σ ν Unit} (blind : m.Blind S) :
    (Extension.afterEachHook className m).Blind S :=
  .of_blindFor fun capability => by
    cases capability <;> intro code member <;> cases member
    exact blind

theorem Descriptor.Blind.testClass {d : Descriptor σ ν} {c : TestClass σ ν} (blind : d.Blind S)
    (found : d.testClass? = some c) : c.Blind S := by
  have role := blind.role
  unfold testClass? at found
  split at found
  · rename_i same
    cases found
    rwa [same] at role
  · contradiction

/-- What is registered for a node is blind if the node is: its extensions, and the hooks of its class. -/
theorem Descriptor.Blind.own {d : Descriptor σ ν} (blind : d.Blind S) (settings : Settings) :
    ∀ x ∈ d.own settings, x.extension.Blind S := by
  intro x member
  rcases List.mem_append.mp member with declared | hook
  · exact blind.extensions x declared
  · split at hook
    · rename_i c found
      have hooks := (blind.testClass found).hooks
      rcases List.mem_append.mp hook with before | after
      · obtain ⟨m, among, rfl⟩ := List.mem_map.mp before
        exact Extension.blind_beforeEachHook _ (hooks m (by simp [mem_orderHooks among]))
      · obtain ⟨m, among, rfl⟩ := List.mem_map.mp after
        exact Extension.blind_afterEachHook _ (hooks m (by simp [mem_orderHooks (List.mem_reverse.mp among)]))
    · contradiction

end TestEngine

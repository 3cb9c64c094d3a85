import TestEngine.Proofs.Instances

/-! The instances that hooks of a run are invoked on. A hook of a class is invoked on the instance that is made of
that class, unless a class nested within it has the same name: then on that of the innermost such class. -/
namespace TestEngine
variable {σ ν : Type}

open Execution

theorem exists_mem_linked {within : Option Nat} {made : List (String × Nat)} {className : String} {number : Nat}
    (h : (className, number) ∈ made) : ∃ around, ⟨className, number, around⟩ ∈ linked within made := by
  induction made generalizing within with
  | nil => contradiction
  | cons first rest ih =>
    rcases List.mem_cons.mp h with rfl | h
    · exact ⟨within, List.mem_cons_self⟩
    · exact (ih h).imp fun _ => List.mem_cons_of_mem _

/-- An instance of each level is made by a constructor of the class that the level is named for, each by one of its
own, for nodes with so many nodes above them at most. -/
structure Constructed (ms : List (Making σ ν)) (depth : Nat) (chain : List Level) : Prop where
  distinct : (chain.map (·.inst.number)).Nodup
  made : ∀ level ∈ chain, ∃ m ∈ ms, m.above.length ≤ depth ∧
    ∃ within, ⟨level.className, level.inst.number, within⟩ ∈ m.calls

namespace Chained
variable {env : Environment σ ν} {tree : TestTree σ ν} {trace : List (Entry ν)} {ms : List (Making σ ν)}

theorem constructed (chained : Chained env tree trace ms) {m : Making σ ν} (member : m ∈ ms) {chain : List Level}
    (held : m.seat.chain = some chain) : Constructed ms m.above.length chain := by
  -- What is inherited is the chain of a node with fewer nodes above.
  induction length : m.above.length using Nat.strongRecOn generalizing m chain with
  | _ depth ih =>
    obtain ⟨fresh, rfl, _, calls⟩ := (chained.sound m member).whole chain held
    have inherits : ∀ level ∈ inherited m.above, ∃ d < depth, Constructed ms d (inherited m.above) := by
      intro level among
      obtain ⟨s, above, suffix, holds⟩ := inherited_held_by among
      obtain ⟨h, made, rfl, rfl⟩ := chained.held m member s above suffix (by simp [holds])
      have shorter : h.above.length < depth := by
        have := suffix.length_le
        rw [List.length_cons] at this
        omega
      exact ⟨_, shorter, ih _ shorter made holds rfl⟩
    have numbers : m.numbers = fresh.map (·.inst.number) := by
      rw [Making.numbers, calls, linked_numbers, List.map_map]
      rfl
    have own : (fresh.map (·.inst.number)).Nodup :=
      numbers ▸ ((List.pairwise_flatMap.mp chained.ascending).1 m member).imp fun less => Nat.ne_of_lt less
    constructor
    · rw [List.map_append]
      refine List.Nodup.append ?_ own fun n upper lower => ?_
      · cases whole : inherited m.above with
        | nil => exact .nil
        | cons level rest =>
          obtain ⟨d, _, constructed⟩ := inherits level (by simp [whole])
          exact whole ▸ constructed.distinct
      · obtain ⟨level, among, rfl⟩ := List.mem_map.mp upper
        obtain ⟨d, shorter, constructed⟩ := inherits level among
        obtain ⟨h, made, bound, within, call⟩ := constructed.made level among
        have called : level.inst.number ∈ h.numbers := List.mem_map_of_mem call
        cases chained.maker made member called (numbers ▸ lower)
        omega
    · intro level among
      rcases List.mem_append.mp among with upper | lower
      · obtain ⟨d, shorter, constructed⟩ := inherits level upper
        obtain ⟨h, made, bound, call⟩ := constructed.made level upper
        exact ⟨h, made, by omega, call⟩
      · refine ⟨m, member, by omega, ?_⟩
        rw [calls]
        exact exists_mem_linked (List.mem_map_of_mem lower)

end Chained

theorem Registry.mem_all_of_mem {r : Registry (Extension σ ν)} {e : Extension σ ν} {capability : Capability}
    (h : e ∈ r.extensions capability) : e ∈ r.all := by
  obtain ⟨x, found, rfl⟩ := supporting_of_mem h
  refine List.mem_map_of_mem ?_
  simpa [layers, or_comm] using List.mem_of_mem_filter found

/-- The extensions of a class's hooks call hooks of the class, under its name. -/
theorem hook_of_mem_hookExtensions {c : TestClass σ ν} {order : HookOrder} {x : Declared σ ν}
    (member : x ∈ hookExtensions c order) {capability : Capability} {className : String} {m : Method σ ν Unit}
    (same : x.extension.each? capability = some (.hook className m)) :
    c.name = className ∧ m ∈ c.hooks capability ∧ capability ≠ .beforeAll ∧ capability ≠ .afterAll := by
  rcases List.mem_append.mp member with before | after
  · obtain ⟨hook, among, rfl⟩ := List.mem_map.mp before
    cases capability <;> simp only [Extension.each?, Extension.beforeEachHook, reduceCtorEq, Option.some.injEq,
      EachCallback.hook.injEq] at same
    obtain ⟨rfl, rfl⟩ := same
    exact ⟨rfl, mem_orderHooks among, by simp, by simp⟩
  · obtain ⟨hook, among, rfl⟩ := List.mem_map.mp after
    cases capability <;> simp only [Extension.each?, Extension.afterEachHook, reduceCtorEq, Option.some.injEq,
      EachCallback.hook.injEq] at same
    obtain ⟨rfl, rfl⟩ := same
    exact ⟨rfl, mem_orderHooks (List.mem_reverse.mp among), by simp, by simp⟩

theorem each?_builtin {x : Declared σ ν} (member : x ∈ builtinExtensions) (capability : Capability) :
    x.extension.each? capability = none := by
  simp only [builtinExtensions, List.mem_cons, List.not_mem_nil, or_false] at member
  rcases member with rfl | rfl <;> cases capability <;> rfl

namespace HookCall

def classes (h : HookCall σ ν) : List (TestClass σ ν) := enclosing (h.seat :: h.above)

/-- The hook is one of a class around the node, and around all tests one of the class that the node is. -/
def OfClass (h : HookCall σ ν) : Prop :=
  ∃ outer c nested, h.classes = outer ++ c :: nested ∧ c.name = h.className ∧ h.hook ∈ c.hooks h.capability ∧
    (h.capability = .beforeAll ∨ h.capability = .afterAll → nested = [])

/-- An extension that is declared for the run, or on the path, has the hook for its callback. -/
def OfExtension (extensions : List (Declared σ ν)) (h : HookCall σ ν) : Prop :=
  ∃ x, (x ∈ extensions ∨ ∃ s ∈ h.seat :: h.above, x ∈ s.descriptor.extensions) ∧
    x.extension.each? h.capability = some (.hook h.className h.hook)

variable {env : Environment σ ν} {tree : TestTree σ ν} {h : HookCall σ ν}

theorem mem_enclosing {s : Seat σ ν} {seats : List (Seat σ ν)} {c : TestClass σ ν} (member : s ∈ seats)
    (found : s.descriptor.testClass? = some c) : c ∈ enclosing seats := by
  rw [enclosing, List.mem_reverse]
  exact List.mem_filterMap.mpr ⟨s, member, found⟩

theorem Sound.origin {extensions : List (Declared σ ν)} (sound : h.Sound env tree)
    (root : rootRegistry extensions = .ok env.registry) : h.OfClass ∨ h.OfExtension extensions := by
  cases sound.brought with
  | all c role name _ member =>
    refine .inl ⟨enclosing h.above, c, [], ?_, name.symm, member, fun _ => rfl⟩
    rw [classes, enclosing_cons]
    simp [Descriptor.testClass?, role]
  | each e among same =>
    rcases sound.registered.origin (Registry.mem_all_of_mem among) with run | ⟨p, member, x, own, rfl⟩
    · rcases Registry.mem_all_registerAll root run with none | ⟨x, listed, rfl⟩
      · simp [Registry.all, Registry.root, Registry.layers] at none
      · rcases List.mem_append.mp listed with builtin | declared
        · simp [each?_builtin builtin] at same
        · exact .inr ⟨x, .inl declared, same⟩
    · obtain ⟨s, onPath, rfl⟩ := List.mem_map.mp member
      rcases List.mem_append.mp own with declared | hook
      · exact .inr ⟨x, .inr ⟨s, onPath, declared⟩, same⟩
      · split at hook
        · rename_i c found
          obtain ⟨name, among, before, after⟩ := hook_of_mem_hookExtensions hook same
          obtain ⟨outer, nested, classes⟩ := List.append_of_mem (mem_enclosing onPath found)
          exact .inl ⟨outer, c, nested, classes, name, among, fun all => absurd all (not_or.mpr ⟨before, after⟩)⟩
        · contradiction

theorem find?_reverse {p : Level → Bool} {before after : List Level} {level : Level} (holds : p level = true)
    (apart : level ∉ after) :
    (before ++ level :: after).reverse.find? p = some level ↔ ∀ l ∈ after, p l = false := by
  rw [List.reverse_append, List.reverse_cons, List.append_assoc, List.find?_append]
  cases found : after.reverse.find? p with
  | none => simpa [holds] using found
  | some l =>
    have member : l ∈ after := List.mem_reverse.mp (List.mem_of_find?_eq_some found)
    rw [Option.some_or]
    refine iff_of_false ?_ fun none => ?_
    · rintro ⟨⟩
      exact apart member
    · exact absurd (List.find?_some found) (by simp [none l member])

structure Aimed (trace : List (Entry ν)) (ms : List (Making σ ν)) (h : HookCall σ ν) : Prop where
  /-- The chain is the one that is made for the node, with one instance for each class around it. -/
  chain : ∃ m ∈ ms, m.seat = h.seat ∧ m.above = h.above ∧ m.seat.chain = some h.chain ∧ m.Nested h.chain
  /-- An instance of each level is made by a constructor of the class that the level is named for. -/
  constructed : ∀ level ∈ h.chain, ∃ within, ⟨level.className, level.inst.number, within⟩ ∈ constructorCalls trace
  distinct : (h.chain.map (·.inst.number)).Nodup
  /-- Of the classes with the name that the hook knows it is the innermost on whose instance it is invoked. So where
  the hook is one of a class, that is the class's own instance unless a class nested within it has the same name. -/
  target : ∀ outer c nested, h.classes = outer ++ c :: nested → c.name = h.className →
    ∃ level, h.chain[outer.length]? = some level ∧ level.className = c.name ∧
      (h.target? = some level ↔ ∀ d ∈ nested, d.name ≠ c.name)

theorem target_level (bound : h.hook.isStatic = false) (named : h.chain.map (·.className) = h.classes.map (·.name))
    (distinct : (h.chain.map (·.inst.number)).Nodup) {outer nested : List (TestClass σ ν)} {c : TestClass σ ν}
    (classes : h.classes = outer ++ c :: nested) (name : c.name = h.className) :
    ∃ level, h.chain[outer.length]? = some level ∧ level.className = c.name ∧
      (h.target? = some level ↔ ∀ d ∈ nested, d.name ≠ c.name) := by
  rw [classes, List.map_append, List.map_cons] at named
  obtain ⟨before, rest, chain, outward, inward⟩ := List.map_eq_append_iff.mp named
  obtain ⟨level, after, rfl, own, further⟩ := List.map_eq_cons_iff.mp inward
  have place : before.length = outer.length := by simpa using congrArg List.length outward
  refine ⟨level, by simp [chain, ← place], own, ?_⟩
  have apart : level ∉ after := by
    rw [chain, List.map_append, List.map_cons] at distinct
    exact fun among => (List.nodup_cons.mp (List.nodup_append.mp distinct).2.1).1 (List.mem_map_of_mem among)
  have holds : (level.className == h.className) = true := by simp [own, name]
  have names : (∀ l ∈ after, l.className ≠ c.name) ↔ ∀ d ∈ nested, d.name ≠ c.name := by
    simpa using (congrArg (c.name ∉ ·) further).to_iff
  rw [target?, if_neg (by simp [bound]), chain, find?_reverse holds apart, ← names, name]
  simp

end HookCall

/-- The hooks that are invoked in a run, and the instances that those are invoked on which are not static. -/
structure HooksAimed (env : Environment σ ν) (extensions : List (Declared σ ν)) (tree : TestTree σ ν)
    (trace : List (Entry ν)) (ms : List (Making σ ν)) (hs : List (HookCall σ ν)) : Prop
    extends Chained env tree trace ms where
  invoked : trace.filter Entry.isHook = hs.map HookCall.entry
  placed : ∀ h ∈ hs, h.Sound env tree
  origin : ∀ h ∈ hs, h.OfClass ∨ h.OfExtension extensions
  aimed : ∀ h ∈ hs, h.hook.isStatic = false → h.Aimed trace ms

theorem HookCall.Sound.aimed {env : Environment σ ν} {tree : TestTree σ ν} {trace : List (Entry ν)}
    {ms : List (Making σ ν)} {h : HookCall σ ν} (sound : h.Sound env tree) (chained : Chained env tree trace ms)
    (backed : Backed [] ms (h.seat :: h.above)) (bound : h.hook.isStatic = false) : h.Aimed trace ms := by
  obtain ⟨chain, held⟩ := Option.isSome_iff_exists.mp (sound.held bound)
  have whole : h.chain = chain := inherited_held held
  obtain ⟨m, member, seat, above⟩ : ∃ m ∈ ms, m.seat = h.seat ∧ m.above = h.above := by
    rcases backed h.seat h.above List.suffix_rfl (sound.held bound) with root | made
    · simp at root
    · exact made
  have holds : m.seat.chain = some h.chain := by rw [seat, held, whole]
  have constructed := chained.constructed member holds
  refine ⟨⟨m, member, seat, above, holds, (chained.sound m member).nested holds⟩, ?_, constructed.distinct, ?_⟩
  · intro level among
    obtain ⟨maker, made, _, within, call⟩ := constructed.made level among
    exact ⟨within, chained.calls ▸ List.mem_flatMap.mpr ⟨maker, made, call⟩⟩
  · intro outer c nested classes name
    have named : h.chain.map (·.className) = h.classes.map (·.name) := whole ▸ sound.fits.named chain held
    exact h.target_level bound named constructed.distinct classes name

section
variable {c : Configuration} {extensions : List (Declared σ ν)} {tree : TestTree σ ν} {user : σ}
  {run : Run σ ν}

/-- Every hook of a run that is not static is invoked on an instance of the chain of its node. For a hook of a class
that is the class's own instance if and only if no class nested within it, down to the node, has the same name. -/
theorem hooks_aimed (executed : execute c extensions tree user = .ok run) :
    ∃ registry ms hs, rootRegistry extensions = .ok registry ∧
      HooksAimed (environment c registry) extensions tree run.trace ms hs := by
  obtain ⟨registry, registered, trace, _, ms, hs, gone, covers, claims, _⟩ := execute_yields executed
  have chained := covers.chained rfl (execute_valid executed) claims
  rw [trace]
  refine ⟨registry, ms, hs, registered, chained, covers.tells.hooks, fun h member => (covers.invoked h member).1,
    ?_, ?_⟩
  · exact fun h member => (covers.invoked h member).1.origin registered
  · exact fun h member => (covers.invoked h member).1.aimed chained (covers.invoked h member).2

def invokedHooks (trace : List (Entry ν)) : List (String × Option Nat) :=
  trace.filterMap fun
    | .step _ (.hook _ _ method number) .began => some (method, number)
    | _ => none

/-- Two classes of one name, one nested within the other. The outer one has one instance for all tests. -/
def Blueprint.namesakes : Blueprint Unit String :=
  let method {α : Type} (name : String) (body : Code Unit String α) : Method Unit String α :=
    { signature := { name }, body := fun _ => body }
  let hook (name : String) : Method Unit String Unit := method name (.done (.ok ()))
  let made : Method Unit String InstanceContent := method "new" (.done (.ok ⟨"Case", "Case"⟩))
  .node (.engine "engine") [
    .node (.ofClass {
        name := "Case", constructor := made, lifecycle := some .perClass
        beforeAll := [hook "open"], beforeEach := [hook "setup"], afterAll := [hook "close"] }) [
      .node (.ofTest (hook "plain")) [],
      .node (.ofClass { name := "Case", constructor := made, beforeEach := [hook "prepare"] }) [
        .node (.ofTest (hook "nested")) []]]]

/-- The hook "setup" of the outer class runs on the instance numbered 0 before a test of that class, but on that of
the nested class before the test of the nested class. -/
theorem hooks_aimed_sample : ∃ run registry ms hs, execute .empty [] Blueprint.namesakes.build () = .ok run ∧
    rootRegistry [] = .ok registry ∧
    HooksAimed (environment .empty registry) [] Blueprint.namesakes.build run.trace ms hs ∧
    constructorCalls run.trace = [⟨"Case", 0, none⟩, ⟨"Case", 1, some 0⟩] ∧
    invokedHooks run.trace = [("open", some 0), ("setup", some 0), ("setup", some 1), ("prepare", some 1),
      ("close", some 0)] := by
  obtain ⟨run, executed, checked⟩ := Blueprint.executed_of_any (r := execute .empty [] Blueprint.namesakes.build ())
    (p := fun run => constructorCalls run.trace == [⟨"Case", 0, none⟩, ⟨"Case", 1, some 0⟩] &&
      invokedHooks run.trace == [("open", some 0), ("setup", some 0), ("setup", some 1), ("prepare", some 1),
        ("close", some 0)]) (by decide +kernel)
  rw [Bool.and_eq_true, beq_iff_eq, beq_iff_eq] at checked
  obtain ⟨registry, ms, hs, registered, aimed⟩ := hooks_aimed executed
  exact ⟨run, registry, ms, hs, executed, registered, aimed, checked.1, checked.2⟩

end
end TestEngine

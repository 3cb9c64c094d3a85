import Mathlib.Data.List.Pairwise
import TestEngine.Proofs.Chaining

/-! The instances of a run. Below a class that has one instance for all tests every chain goes on from the one
that the class holds; what else is in a chain was made for its node alone. -/
namespace TestEngine
variable {σ ν : Type}

/-- All the chains that are made in a run, told by the marks in its trace. -/
structure Chained (env : Environment σ ν) (tree : TestTree σ ν) (trace : List (Entry ν))
    (ms : List (Making σ ν)) : Prop where
  told : trace.filter Entry.isMaking = ms.flatMap Making.entries
  sound : ∀ m ∈ ms, m.Sound env tree
  seen : ∀ m ∈ ms, m.Seen env trace
  /-- What a node above holds was made for it. -/
  held : ∀ m ∈ ms, ∀ s above, s :: above <:+ m.above → s.chain.isSome → ∃ h ∈ ms, h.seat = s ∧ h.above = above
  /-- No two constructor calls are for the same number. -/
  ascending : (ms.flatMap Making.numbers).Pairwise (· < ·)
  /-- No class makes two chains. -/
  once : (classIds ms).Nodup

/-- Leave has been taken of these chains, of one after the other, and of nothing else. -/
def LeaveTaken (trace : List (Entry ν)) (ms : List (Making σ ν)) : Prop :=
  ∃ ls : List (Making σ ν), ls.Perm ms ∧ trace.filter Entry.isFarewell = ls.flatMap Making.farewells

/-- What is made in a whole run, from the root of the tree on, and of what leave is taken. -/
theorem execute_yields {c : Configuration} {extensions : List (Declared σ ν)} {tree : TestTree σ ν} {user : σ}
    {run : Run σ ν} (executed : execute c extensions tree user = .ok run) :
    ∃ registry, rootRegistry extensions = .ok registry ∧
      let reached := (Execution.execute tree).goes (environment c registry) { user }
      run.trace = reached.2.trace.toList ∧
      run.halt = (match reached.1 with | .ok () => none | .error h => some h) ∧
      Yields (environment c registry) tree [] tree.ids { user } reached := by
  obtain ⟨registry, registered, ran⟩ := execute_ok executed
  have joins : Joins tree tree.descriptor tree.children ([] : List (Seat σ ν)) := by
    cases tree
    rfl
  have keeps : Keeps (environment c registry) tree [] tree.ids (Execution.execute tree) :=
    Execution.keeps_execute tree [] ⟨.nil, trivial⟩ joins
  exact ⟨registry, registered, by rw [ran], congrArg Run.halt ran, (keeps { user } rfl).2⟩

theorem Covers.chained {env : Environment σ ν} {tree : TestTree σ ν} {w w' : World σ ν} {ms : List (Making σ ν)}
    {hs : List (HookCall σ ν)} {gone : List (Entry ν)} (covers : Covers env tree [] w w' ms hs gone)
    (start : w.trace = #[]) (valid : tree.validate = .ok ()) (claims : (classIds ms).Subperm tree.ids) :
    Chained env tree w'.trace.toList ms where
  told := by rw [covers.tells.makings, start]; rfl
  sound := covers.sound
  seen := covers.seen
  held m member s above suffix held := by
    rcases covers.backed m member s above suffix held with root | made
    · simp at root
    · exact made
  ascending := covers.tells.ascending
  once := by
    obtain ⟨ids, same, among⟩ := claims
    exact same.nodup_iff.mp ((TestTree.validate_nodup valid).sublist among)

theorem execute_chained {c : Configuration} {extensions : List (Declared σ ν)} {tree : TestTree σ ν} {user : σ}
    {run : Run σ ν} (executed : execute c extensions tree user = .ok run) :
    ∃ registry ms, rootRegistry extensions = .ok registry ∧ Chained (environment c registry) tree run.trace ms ∧
      (run.leaving ≠ .stuck → (∀ payload, ¬ SupportPanics payload run.trace) → LeaveTaken run.trace ms) := by
  obtain ⟨registry, registered, trace, halt, ms, hs, gone, covers, claims, settles⟩ := execute_yields executed
  have chained := covers.chained rfl (execute_valid executed) claims
  rw [← trace] at chained settles
  refine ⟨registry, ms, registered, chained, fun left free => ?_⟩
  cases outcome : ((Execution.execute tree).goes (environment c registry) { user }).1 with
  | error h =>
    rw [outcome] at halt settles
    cases h with
    | panicked payload => exact absurd (settles.panics payload rfl) (free payload)
    | late | blocked | endless | nesting => exact absurd (by simp [Run.leaving, halt, Leaving.of]) left
  | ok =>
    rw [outcome] at settles
    obtain ⟨ls, perm, same⟩ := settles.shown () rfl free
    refine ⟨ls, perm, ?_⟩
    rw [trace, covers.tells.farewells, ← same]
    rfl

section
variable {settings : Settings} {tree : TestTree σ ν} {before rest seats : List (Seat σ ν)}

theorem Seated.suffix (path : Seated settings tree seats) (below : rest <:+ seats) : Seated settings tree rest := by
  induction path with
  | nil => rw [List.suffix_nil.mp below]; exact .nil
  | cons s above fits held path ih =>
    rcases List.suffix_cons_iff.mp below with rfl | below
    · exact .cons s above fits held path
    · exact ih below

theorem Seated.held {s : Seat σ ν} {above : List (Seat σ ν)} (path : Seated settings tree seats)
    (below : s :: above <:+ seats) : s.chain.isSome ↔ s.PerClass := by
  cases path.suffix below with
  | cons _ _ _ held _ => exact held

/-- Nodes other than classes with one instance for all tests hand down what is above. -/
theorem Seated.passing (path : Seated settings tree (before ++ rest)) (none : ∀ s ∈ before, ¬ s.PerClass) :
    inherited (before ++ rest) = inherited rest ∧ missing (before ++ rest) = missing rest ++ enclosing before := by
  induction before with
  | nil => simp [enclosing]
  | cons s before ih =>
    have free : s.chain = .none := by simpa using mt (path.held List.suffix_rfl).mp (none s (by simp))
    obtain ⟨same, more⟩ := ih (path.suffix (List.suffix_cons s _)) fun t member => none t (by simp [member])
    rw [List.cons_append, inherited_none free, missing_none free, same, more, enclosing_cons, List.append_assoc]
    exact ⟨rfl, rfl⟩

/-- What is inherited is held by a node of the path. -/
theorem inherited_held_by {l : Level} (member : l ∈ inherited seats) :
    ∃ s above, s :: above <:+ seats ∧ s.chain = some (inherited seats) := by
  induction seats with
  | nil => simp [inherited] at member
  | cons s above ih =>
    cases held : s.chain with
    | some chain => exact ⟨s, above, List.suffix_rfl, by rw [inherited_held held, held]⟩
    | none =>
      rw [inherited_none held] at member ⊢
      obtain ⟨t, beyond, suffix, same⟩ := ih member
      exact ⟨t, beyond, suffix.trans (List.suffix_cons s above), same⟩

end

/-- The chain of a node has one instance for each class around. It goes on from the chain of the nearest class
above with one instance for all tests, and constructors are called for what is below that class only, each
within the instance before. -/
structure Making.Nested (m : Making σ ν) (chain : List Level) : Prop where
  names : chain.map (·.className) = (enclosing (m.seat :: m.above)).map (·.name)
  shared : ∀ before p rest, m.above = before ++ p :: rest → p.PerClass → (∀ s ∈ before, ¬ s.PerClass) →
    ∃ held fresh, p.chain = some held ∧ chain = held ++ fresh ∧
      fresh.map (·.className) = (enclosing (m.seat :: before)).map (·.name) ∧
      m.calls = linked (innermost held) (fresh.map (·.tag))
  own : (∀ s ∈ m.above, ¬ s.PerClass) → m.calls = linked none (chain.map (·.tag))

theorem Making.Sound.nested {env : Environment σ ν} {tree : TestTree σ ν} {m : Making σ ν} {chain : List Level}
    (sound : m.Sound env tree) (held : m.seat.chain = some chain) : m.Nested chain := by
  obtain ⟨fresh, same, names, calls⟩ := sound.whole chain held
  refine ⟨sound.fits.named chain held, ?_, ?_⟩
  · intro before p rest above single passing
    rw [classes, above] at names
    rw [above] at same calls
    have path := above ▸ sound.path
    obtain ⟨inherits, misses⟩ := path.passing passing
    obtain ⟨held, here⟩ := Option.isSome_iff_exists.mp ((path.held (List.suffix_append before _)).mpr single)
    rw [inherits, inherited_held here] at same calls
    rw [misses, missing_held here, List.nil_append, ← enclosing_cons] at names
    exact ⟨held, fresh, here, same, names, calls⟩
  · intro alone
    have path : Seated env.settings tree (m.above ++ []) := (List.append_nil m.above).symm ▸ sound.path
    obtain ⟨inherits, _⟩ := path.passing alone
    have none : inherited m.above = [] := by simpa [inherited] using inherits
    rw [none] at same calls
    rw [same, calls]
    rfl

namespace Chained
variable {env : Environment σ ν} {tree : TestTree σ ν} {trace : List (Entry ν)} {ms : List (Making σ ν)}

/-- The trace tells of the calls for these chains and of no others. -/
theorem calls (chained : Chained env tree trace ms) : constructorCalls trace = ms.flatMap (·.calls) := by
  rw [← constructorCalls_makings, chained.told, constructorCalls, List.filterMap_flatMap]
  exact List.flatMap_congr fun m _ => m.calls_entries

theorem apart (chained : Chained env tree trace ms) :
    ms.Pairwise fun x y => ∀ n ∈ x.numbers, n ∉ y.numbers := by
  refine (List.pairwise_flatMap.mp chained.ascending).2.imp ?_
  intro x y less n left right
  exact Nat.lt_irrefl n (less n left n right)

/-- A number belongs to one node. -/
theorem maker (chained : Chained env tree trace ms) {m m' : Making σ ν} (member : m ∈ ms) (member' : m' ∈ ms)
    {n : Nat} (called : n ∈ m.numbers) (called' : n ∈ m'.numbers) : m = m' := by
  by_contra different
  have : Std.Symm fun x y : Making σ ν => ∀ n ∈ x.numbers, n ∉ y.numbers :=
    ⟨fun x y apart n left right => apart n right left⟩
  exact chained.apart.forall member member' different n called called'

/-- What is in a chain was constructed for its node, or for a class that has one instance for all tests. -/
theorem origin (chained : Chained env tree trace ms) {n : Nat} {m : Making σ ν} (member : m ∈ ms)
    {chain : List Level} (held : m.seat.chain = some chain) (among : n ∈ chain.map (·.inst.number)) :
    n ∈ m.numbers ∨ ∃ h ∈ ms, h.seat.PerClass ∧ n ∈ h.numbers := by
  -- The nodes on the path to the holder are fewer.
  induction length : m.above.length using Nat.strongRecOn generalizing m chain with
  | _ k ih =>
    obtain ⟨fresh, rfl, _, calls⟩ := (chained.sound m member).whole chain held
    rw [List.map_append, List.mem_append] at among
    rcases among with among | among
    · obtain ⟨l, within, rfl⟩ := List.mem_map.mp among
      obtain ⟨s, above, suffix, holds⟩ := inherited_held_by within
      have held : s.chain.isSome := by simp [holds]
      have single := ((chained.sound m member).path.held suffix).mp held
      obtain ⟨h, made, rfl, rfl⟩ := chained.held m member s above suffix held
      have shorter : h.above.length < k := by
        have := suffix.length_le
        rw [List.length_cons] at this
        omega
      rcases ih _ shorter made holds among rfl with called | other
      · exact .inr ⟨h, made, single, called⟩
      · exact .inr other
    · refine .inl ?_
      rw [Making.numbers, calls, linked_numbers]
      simpa [Level.tag, Function.comp_def] using among

/-- A class that has one instance for all tests is come to once. -/
theorem unique (chained : Chained env tree trace ms) {m m' : Making σ ν} (member : m ∈ ms) (member' : m' ∈ ms)
    {p p' : Seat σ ν} (among : p ∈ m.above) (among' : p' ∈ m'.above) (single : p.PerClass) (single' : p'.PerClass)
    (same : p.descriptor.id = p'.descriptor.id) : p = p' := by
  have found {m : Making σ ν} (member : m ∈ ms) {p : Seat σ ν} (among : p ∈ m.above) (single : p.PerClass) :
      ∃ h ∈ ms.filter (·.seat.descriptor.testClass?.isSome), h.seat = p := by
    obtain ⟨before, rest, above⟩ := List.append_of_mem among
    have suffix : p :: rest <:+ m.above := above ▸ List.suffix_append before _
    have holds := ((chained.sound m member).path.held suffix).mpr single
    obtain ⟨h, made, rfl, _⟩ := chained.held m member p rest suffix holds
    obtain ⟨_, c, role⟩ := single
    exact ⟨h, List.mem_filter.mpr ⟨made, by simp [Descriptor.testClass?, role]⟩, rfl⟩
  obtain ⟨h, made, rfl⟩ := found member among single
  obtain ⟨h', made', rfl⟩ := found member' among' single'
  rw [List.inj_on_of_nodup_map chained.once made made' same]

/-- What is constructed for a leaf is in no other chain. -/
theorem alone (chained : Chained env tree trace ms) {m m' : Making σ ν} (member : m ∈ ms) (member' : m' ∈ ms)
    (leafy : m.seat.descriptor.testClass? = none) {n : Nat} (called : n ∈ m.numbers) {chain : List Level}
    (held : m'.seat.chain = some chain) (among : n ∈ chain.map (·.inst.number)) : m' = m := by
  rcases chained.origin member' held among with called' | ⟨h, made, ⟨_, c, role⟩, called'⟩
  · exact chained.maker member' member called' called
  · cases chained.maker made member called' called
    simp [Descriptor.testClass?, role] at leafy

end Chained

/-- Which instances the chains of a run have in common. -/
structure NestedChains (env : Environment σ ν) (tree : TestTree σ ν) (trace : List (Entry ν))
    (ms : List (Making σ ν)) : Prop extends Chained env tree trace ms where
  nested : ∀ m ∈ ms, ∀ chain, m.seat.chain = some chain → m.Nested chain
  /-- Wherever below a class with one instance for all tests, what it holds is the same. -/
  same : ∀ m ∈ ms, ∀ m' ∈ ms, ∀ p ∈ m.above, ∀ p' ∈ m'.above, p.PerClass → p'.PerClass →
    p.descriptor.id = p'.descriptor.id → p = p'
  alone : ∀ m ∈ ms, m.seat.descriptor.testClass? = none → ∀ n ∈ m.numbers, ∀ m' ∈ ms, ∀ chain,
    m'.seat.chain = some chain → n ∈ chain.map (·.inst.number) → m' = m

section
variable {c : Configuration} {extensions : List (Declared σ ν)} {tree : TestTree σ ν} {user : σ}
  {run : Run σ ν}

/-- Of the instances of a run those are shared that a class has for all its tests, and no others. -/
theorem instances_nested (executed : execute c extensions tree user = .ok run) :
    ∃ registry ms, rootRegistry extensions = .ok registry ∧
      NestedChains (environment c registry) tree run.trace ms := by
  obtain ⟨registry, ms, registered, chained, _⟩ := execute_chained executed
  refine ⟨registry, ms, registered, chained, fun m member chain => (chained.sound m member).nested, ?_, ?_⟩
  · exact fun m member m' member' p among p' among' => chained.unique member member' among among'
  · exact fun m member leafy n called m' member' chain => chained.alone member member' leafy called

theorem instances_nested_sample : ∃ run registry ms, execute .empty [] Blueprint.nested.build () = .ok run ∧
    rootRegistry [] = .ok registry ∧ NestedChains (environment .empty registry) Blueprint.nested.build run.trace ms ∧
    ms.flatMap (·.calls) = [⟨"Outer", 0, none⟩, ⟨"Inner", 1, some 0⟩, ⟨"Inner", 2, some 0⟩, ⟨"Broken", 3, some 0⟩] := by
  obtain ⟨run, executed, checked⟩ := Blueprint.executed_of_any (r := execute .empty [] Blueprint.nested.build ())
    (p := fun run => constructorCalls run.trace =
      [⟨"Outer", 0, none⟩, ⟨"Inner", 1, some 0⟩, ⟨"Inner", 2, some 0⟩, ⟨"Broken", 3, some 0⟩]) (by decide +kernel)
  obtain ⟨registry, ms, registered, chains⟩ := instances_nested executed
  exact ⟨run, registry, ms, executed, registered, chains, chains.calls.symm.trans (of_decide_eq_true checked)⟩

end
end TestEngine

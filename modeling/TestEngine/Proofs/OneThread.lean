import TestEngine.Proofs.Turns

/-! Runs with parallel execution and one thread. Such a run is the very run without parallel execution of the tree whose
children stand in the order in which they take turns. -/
namespace TestEngine
variable {σ ν : Type} {env : Environment σ ν} {c c' : Configuration}

open Execution

/-- Of the two configurations, one enables parallel execution with one thread. The other does not, and gives the same
settings apart from that. Neither gives a timeout. What a run does with more threads is not modelled: `executeChildren`
has concurrent children take turns however many threads there are, and that is what the program does with one. -/
structure Sequentializes (c c' : Configuration) : Prop where
  parallel : (Settings.ofConfiguration c).parallel = true
  oneThread : (Settings.ofConfiguration c).parallelism = some 1
  untimed : (Settings.ofConfiguration c).defaultTimeout = none
  settings : Settings.ofConfiguration c' = { Settings.ofConfiguration c with parallel := false }
  deactivated : deactivatedBy Glob.library c' = deactivatedBy Glob.library c

/-- The configuration with parallel execution switched off in front of it. -/
def Configuration.sequential (c : Configuration) : Configuration :=
  .layered [.ofList [(Key.parallelEnabled, "false")], c]

def Configuration.oneThread : Configuration := .ofList [(Key.parallelEnabled, "true"), (Key.parallelism, "1")]

theorem Configuration.get?_sequential (c : Configuration) {key : String} (other : key ≠ Key.parallelEnabled) :
    c.sequential.get? key = c.get? key := by
  have passes : (ofList [(Key.parallelEnabled, "false")]).get? key = none := by
    show List.lookup key [(Key.parallelEnabled, "false")] = none
    rw [List.lookup_cons, beq_false_of_ne other]
    rfl
  simp only [sequential, get?, getFirst?] at passes ⊢
  rw [passes]
  cases c.get? key <;> rfl

theorem Configuration.sequentializes {c : Configuration} (parallel : (Settings.ofConfiguration c).parallel = true)
    (oneThread : (Settings.ofConfiguration c).parallelism = some 1)
    (untimed : (Settings.ofConfiguration c).defaultTimeout = none) : Sequentializes c c.sequential := by
  have off : c.sequential.bool? Key.parallelEnabled = some false := by
    have found : c.sequential.get? Key.parallelEnabled = some "false" := rfl
    rw [bool?, parsed?, trimmed?, found]
    decide +kernel
  have others : ∀ key ∈ [Key.defaultLifecycle, Key.defaultMode, Key.defaultClassesMode, Key.parallelism,
      Key.defaultTimeout, Key.deactivateConditions, Key.defaultHookOrder], c.sequential.get? key = c.get? key :=
    fun key member => c.get?_sequential (by rintro rfl; revert member; decide)
  simp only [List.forall_mem_cons] at others
  obtain ⟨lifecycle, mode, classesMode, parallelism, timeout, deactivated, hooks, -⟩ := others
  refine ⟨parallel, oneThread, untimed, ?_, ?_⟩
  · simp only [Settings.ofConfiguration, nat?, duration?, parsed?, trimmed?, off, lifecycle, mode, classesMode,
      parallelism, timeout, hooks]
    rfl
  · unfold deactivatedBy
    rw [deactivated]

theorem Sequentializes.environment {c c' : Configuration} (sequentializes : Sequentializes c c')
    (registry : Registry (Extension σ ν)) :
    environment c' registry = (TestEngine.environment c registry).sequential c' := by
  unfold TestEngine.environment Environment.sequential
  rw [sequentializes.settings, sequentializes.deactivated]

section
variable {c' : Configuration}

theorem View.Reconfigured.path {v v' : View} (seen : View.Reconfigured c c' v v') : v'.path = v.path := by
  rcases seen with rfl | ⟨-, rfl⟩ <;> rfl

theorem Run.eq_of {run run' : Run σ ν} (trace : run.trace = run'.trace) (halt : run'.halt = run.halt)
    (user : run'.user = run.user) : run' = run := by
  cases run
  cases run'
  cases trace
  cases halt
  cases user
  rfl

/-- With one thread, a run is the very run without parallel execution of the tree that has its children in turns: all
is told in the same order, and the user's state and the end are the same. Nothing may have a timeout: a body that is
late may still be at work beside what follows it, and is not followed here. No code may tell the two configurations
apart, and no provider may panic that is asked for its support. -/
theorem run_in_turns {extensions : List (Declared σ ν)} {tree : TestTree σ ν} {user : σ} {run : Run σ ν}
    (executed : execute c extensions tree user = .ok run) (sequentializes : Sequentializes c c')
    (blind : ∀ x ∈ extensions, x.extension.Blind (View.Reconfigured c c'))
    (nodes : ∀ d ∈ tree.preorder, d.timeout = none ∧ d.Blind (View.Reconfigured c c'))
    (settled : ∀ payload, ¬ SupportPanics payload run.trace) :
    ∃ registry arranged, rootRegistry extensions = .ok registry ∧
      Arranged (environment c registry) { user } tree arranged ∧ execute c' extensions arranged user = .ok run := by
  obtain ⟨registry, registered, ran⟩ := execute_ok executed
  let b := Coupling.sequential (environment c registry) c'
  have takes : TakesTurns (environment c registry) c' tree :=
    execute_takesTurns (rootRegistry_blind View.Reconfigured.path blind registered) tree fun d among => (nodes d among).2
  obtain ⟨arranged, turns, alike⟩ := takes { user } { user } (.start user) fun payload panics =>
    settled payload (by rw [ran]; exact panics)
  obtain ⟨run', executed', trace, halt, state⟩ := Coupling.execute_alike (b := b) registered registered
    (turns.valid (execute_valid executed)) rfl (sequentializes.environment registry).symm alike executed
  refine ⟨registry, arranged, registered, turns, ?_⟩
  rw [executed', Run.eq_of trace halt state]

end

namespace Blueprint

/-- A class of two tests, of which the first one is concurrent. -/
def turns : Blueprint Unit String :=
  .node (.engine "turns") [
    .node (.ofClass { name := "Pair", constructor := noted "Pair" (.ok ⟨"Pair", "Pair#1"⟩) }) [
      .node { Outline.ofTest (noted "first" (.ok ())) with mode := some .concurrent } [],
      .node (.ofTest (noted "second" (.ok ()))) []]]

theorem turns_blind (S : View → View → Prop) : ∀ d ∈ turns.build.preorder, d.timeout = none ∧ d.Blind S := by
  have blind {α : Type} (name : String) (outcome : Except TestError α) : (noted name outcome).Blind S :=
    fun _ => .note name (.done rfl)
  refine List.forall_mem_cons.mpr ⟨⟨rfl, trivial, nofun⟩,
    List.forall_mem_cons.mpr ⟨⟨rfl, ⟨blind _ _, nofun⟩, nofun⟩, List.forall_mem_cons.mpr ⟨⟨rfl, blind _ _, nofun⟩,
      List.forall_mem_singleton.mpr ⟨rfl, blind _ _, nofun⟩⟩⟩⟩

end Blueprint

open Blueprint in
theorem run_in_turns_pair : ∃ run registry arranged,
    execute .oneThread [] turns.build () = .ok run ∧ rootRegistry [] = .ok registry ∧
    Arranged (environment .oneThread registry) { user := () } turns.build arranged ∧
    execute Configuration.oneThread.sequential [] arranged () = .ok run ∧
    run.notes = ["Pair", "second", "Pair", "first"] := by
  obtain ⟨run, executed, told⟩ := executed_of_any (r := execute .oneThread [] turns.build ())
    (p := fun run => run.notes == ["Pair", "second", "Pair", "first"] && !run.trace.any Entry.asksSupport)
    (by decide +kernel)
  rw [Bool.and_eq_true, beq_iff_eq, Bool.not_eq_true'] at told
  obtain ⟨registry, arranged, registered, takes, again⟩ := run_in_turns executed
    (Configuration.sequentializes (by decide +kernel) (by decide +kernel) (by decide +kernel)) nofun (turns_blind _)
    (not_supportPanics told.2)
  exact ⟨run, registry, arranged, executed, registered, takes, again, told.1⟩

theorem Arranged.leaf {w : World σ ν} {d : Descriptor σ ν} {t : TestTree σ ν}
    (arranged : Arranged env w (.node d []) t) : t = .node d [] := by
  cases arranged with
  | executed below each =>
    cases each
    rfl
  | kept _ => rfl

/-- There is one order for a single child. -/
theorem Arranged.single {w : World σ ν} {d leaf : Descriptor σ ν} {t : TestTree σ ν}
    (arranged : Arranged env w (.node d [.node leaf []]) t) : t = .node d [.node leaf []] := by
  cases arranged with
  | @executed _ v _ _ _ below each =>
    rw [List.perm_singleton.mp (inTurns_perm env.settings d v.held [.node leaf []])] at each
    cases each with
    | cons first others =>
      cases others
      rw [first.leaf]
  | kept _ => rfl

namespace Blueprint

/-- An extension that enables tests where parallel execution is enabled. -/
def ifParallel : Except TestError (Extension Unit String) := Extension.enabledIf Key.parallelEnabled "true"

def conditional : Blueprint Unit String :=
  .node (.engine "arbor") [
    .node { Outline.ofTest (noted "t" (.ok ())) with extensions := ifParallel.toOption.toList.map (⟨·, .default⟩) } []]

end Blueprint

open Blueprint in
/-- A test with a condition on the configuration is executed with one thread, and skipped without parallel execution. -/
theorem conditional_not_in_turns : ∃ run run',
    Sequentializes .oneThread Configuration.oneThread.sequential ∧
    execute .oneThread [] conditional.build () = .ok run ∧ (∀ payload, ¬ SupportPanics payload run.trace) ∧
    (∀ d ∈ conditional.build.preorder, d.timeout = none) ∧
    (∀ registry arranged, Arranged (environment .oneThread registry) { user := () } conditional.build arranged →
      arranged = conditional.build) ∧
    execute Configuration.oneThread.sequential [] conditional.build () = .ok run' ∧ run'.events ≠ run.events := by
  obtain ⟨run, executed, told⟩ := executed_of_any (r := execute .oneThread [] conditional.build ())
    (p := fun run => run.events.length == 4 && !run.trace.any Entry.asksSupport) (by decide +kernel)
  obtain ⟨run', executed', told'⟩ := executed_of_any
    (r := execute Configuration.oneThread.sequential [] conditional.build ())
    (p := fun run => run.events.length == 3) (by decide +kernel)
  rw [Bool.and_eq_true, beq_iff_eq, Bool.not_eq_true'] at told
  refine ⟨run, run', Configuration.sequentializes (by decide +kernel) (by decide +kernel) (by decide +kernel), executed,
    not_supportPanics told.2, by decide, fun _ _ arranged => arranged.single, executed', fun same => ?_⟩
  rw [same, told.1] at told'
  contradiction

end TestEngine

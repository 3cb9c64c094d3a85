import TestEngine.Proofs.Executing
import TestEngine.Proofs.Positions
import TestEngine.Proofs.Violations

/-! Runs that are refused: those of a tree that is not valid, and those for which two extensions are given that ask for
the same extreme position. What decides that is seen without any code of the user, and nothing is run before. -/
namespace TestEngine
variable {σ ν : Type}

open Execution

/-- Two registrations that exclude each other: both ask for the same extreme position, and they have a capability in
common. -/
def Declared.Rivals (d d' : Declared σ ν) : Prop :=
  d'.position ≠ .default ∧ d.position = d'.position ∧
    ∃ capability, d.extension.has capability = true ∧ d'.extension.has capability = true

namespace Registry
variable {r r' : Registry (Extension σ ν)} {d d' : Declared σ ν} {ds : List (Declared σ ν)} {error : TestError}

/-- What is registered in a registry and above it, as it was declared. -/
def declared (r : Registry (Extension σ ν)) : List (Declared σ ν) :=
  r.chain.map fun x => ⟨x.extension, x.position⟩

theorem declared_register (registered : r.register d.extension d.position = .ok r') :
    r'.declared = r.declared ++ [d] := by
  rw [declared, chain_register registered]
  simp [declared]

/-- A registration is refused for a rival that is registered, and the error names both. -/
theorem rival_of_register (refused : r.register d'.extension d'.position = .error error) :
    ∃ d ∈ r.declared, d.Rivals d' ∧
      ∃ capability, error = alreadyClaimed d'.extension d.extension d'.position capability := by
  have conflict : r.conflict? d'.extension d'.position = some error := by
    unfold register at refused
    split at refused
    · rename_i conflict
      rw [conflict, Except.error.inj refused]
    · contradiction
  unfold conflict? at conflict
  split at conflict
  · contradiction
  · rename_i extreme
    obtain ⟨capability, -, found⟩ := List.exists_of_findSome?_eq_some conflict
    split at found
    · rename_i able
      obtain ⟨x, claimed, rfl⟩ := Option.map_eq_some_iff.mp found
      have claims := List.find?_some claimed
      rw [Bool.and_eq_true, beq_iff_eq] at claims
      have member : x ∈ r.chain := mem_chain.mpr (List.mem_of_find?_eq_some claimed)
      have rivals : Declared.Rivals ⟨x.extension, x.position⟩ d' := ⟨extreme, claims.1, capability, claims.2, able⟩
      exact ⟨_, List.mem_map_of_mem member, rivals, capability, rfl⟩
    · contradiction

/-- A registration is refused if a rival is registered. -/
theorem register_of_rival (among : d ∈ r.declared) (rivals : d.Rivals d') :
    ∃ error, r.register d'.extension d'.position = .error error := by
  obtain ⟨extreme, same, capability, first, second⟩ := rivals
  obtain ⟨x, member, rfl⟩ := List.mem_map.mp among
  have claim : x ∈ r.claims capability d'.position := by
    rw [claims, List.mem_filter, Bool.and_eq_true, beq_iff_eq]
    exact ⟨member, same, first⟩
  exact register_error_iff.mpr ⟨extreme, capability, second, List.ne_nil_of_mem claim⟩

/-- Where registrations fail, two of them are rivals, or one is of what was registered before. -/
theorem rivals_of_registerAll (failed : registerAll r ds = .error error) :
    ∃ d d', [d, d'].Sublist (r.declared ++ ds) ∧ d.Rivals d' ∧
      ∃ capability, error = alreadyClaimed d'.extension d.extension d'.position capability := by
  induction ds generalizing r with
  | nil => contradiction
  | cons d' ds ih =>
    unfold registerAll at failed
    split at failed
    · rename_i refused
      cases failed
      obtain ⟨d, among, rivals, named⟩ := rival_of_register refused
      have first : [d].Sublist r.declared := List.singleton_sublist.mpr among
      exact ⟨d, d', first.append (List.singleton_sublist.mpr List.mem_cons_self), rivals, named⟩
    · rename_i registered
      obtain ⟨d, d'', pair, rivals, named⟩ := ih failed
      rw [declared_register registered, List.append_assoc] at pair
      exact ⟨d, d'', pair, rivals, named⟩

/-- Where registrations succeed, no two of them are rivals, if none were before. -/
theorem unrivalled_of_registerAll (registered : registerAll r ds = .ok r')
    (before : r.declared.Pairwise fun d d' => ¬ d.Rivals d') :
    (r.declared ++ ds).Pairwise fun d d' => ¬ d.Rivals d' := by
  induction ds generalizing r with
  | nil => simpa using before
  | cons d' ds ih =>
    unfold registerAll at registered
    split at registered
    · contradiction
    · rename_i one
      have declared := declared_register one
      have apart : ∀ d ∈ r.declared, ¬ d.Rivals d' := by
        intro d among rivals
        obtain ⟨error, refused⟩ := register_of_rival among rivals
        rw [refused] at one
        contradiction
      have others := ih registered (by
        rw [declared, List.pairwise_append]
        exact ⟨before, List.pairwise_singleton _ _, by simpa using apart⟩)
      rwa [declared, List.append_assoc] at others

end Registry

section
variable {extensions : List (Declared σ ν)}

/-- The extensions of every run ask for no position, so that none of them has a rival. -/
theorem rivals_given {d d' : Declared σ ν} (pair : [d, d'].Sublist (builtinExtensions ++ extensions))
    (rivals : d.Rivals d') : [d, d'].Sublist extensions := by
  obtain ⟨extreme, same, -⟩ := rivals
  have kept := pair.filter (·.position ≠ .default)
  have both : [d, d'].filter (·.position ≠ .default) = [d, d'] := by simp [same, extreme]
  have none : (builtinExtensions : List (Declared σ ν)).filter (·.position ≠ .default) = [] := rfl
  rw [both, List.filter_append, none, List.nil_append] at kept
  exact kept.trans List.filter_sublist

/-- Where the extensions given for a run are refused, two of them are rivals, and the error names both. -/
theorem rivals_of_rootRegistry {error : TestError} (failed : rootRegistry extensions = .error error) :
    ∃ d d', [d, d'].Sublist extensions ∧ d.Rivals d' ∧
      ∃ capability, error = Registry.alreadyClaimed d'.extension d.extension d'.position capability := by
  obtain ⟨d, d', pair, rivals, named⟩ := Registry.rivals_of_registerAll failed
  exact ⟨d, d', rivals_given pair rivals, rivals, named⟩

/-- The extensions given for a run are refused if and only if two of them are rivals. -/
theorem rootRegistry_error_iff : (∃ error, rootRegistry extensions = .error error) ↔
    ∃ d d', [d, d'].Sublist extensions ∧ d.Rivals d' := by
  constructor
  · rintro ⟨error, failed⟩
    obtain ⟨d, d', pair, rivals, -⟩ := rivals_of_rootRegistry failed
    exact ⟨d, d', pair, rivals⟩
  · rintro ⟨d, d', pair, rivals⟩
    cases registered : rootRegistry extensions with
    | error error => exact ⟨error, rfl⟩
    | ok registry =>
      have apart := Registry.unrivalled_of_registerAll registered List.Pairwise.nil
      have among := pair.trans (List.sublist_append_right builtinExtensions extensions)
      exact absurd rivals (List.pairwise_iff_forall_sublist.mp apart among)

end

/-- What a registry sees of an extension: its name and its capabilities, and none of its code. -/
structure Badge where
  name : String
  has : Capability → Bool

instance : Registrable Badge := ⟨Badge.name, Badge.has⟩

def Extension.badge (e : Extension σ ν) : Badge := ⟨e.name, e.has⟩

def Declared.badge (d : Declared σ ν) : Badge × Position := (d.extension.badge, d.position)

def Registration.badge (x : Registration (Extension σ ν)) : Registration Badge :=
  ⟨x.extension.badge, x.position, x.scope⟩

def Layer.badges (l : Layer (Extension σ ν)) : Layer Badge := ⟨l.scope, l.registrations.map Registration.badge⟩

namespace Registry
variable {σ' ν' : Type}

/-- The registry without the code of what is registered in it. -/
def badges (r : Registry (Extension σ ν)) : Registry Badge :=
  { own := r.own.badges, above := r.above.map Layer.badges }

theorem claim?_badges (r : Registry (Extension σ ν)) (capability : Capability) (position : Position) :
    r.badges.claim? capability position = (r.claim? capability position).map Registration.badge := by
  have listed : r.badges.layers.flatMap (·.registrations) =
      (r.layers.flatMap (·.registrations)).map Registration.badge := by
    simp [badges, layers, Layer.badges, List.flatMap_map, List.map_flatMap]
  rw [claim?, listed, List.find?_map]
  rfl

theorem conflict?_badges (r : Registry (Extension σ ν)) (e : Extension σ ν) (position : Position) :
    r.badges.conflict? e.badge position = r.conflict? e position := by
  have named (capability : Capability) :
      ((r.badges.claim? capability position).map fun x => alreadyClaimed e.badge x.extension position capability) =
        (r.claim? capability position).map fun x => alreadyClaimed e x.extension position capability := by
    rw [claim?_badges, Option.map_map]
    rfl
  simp only [conflict?, named]
  rfl

theorem register_badges (r : Registry (Extension σ ν)) (e : Extension σ ν) (position : Position) :
    r.badges.register e.badge position = (r.register e position).map badges := by
  unfold register
  rw [conflict?_badges]
  cases r.conflict? e position with
  | some error => rfl
  | none => simp [badges, Layer.badges, Registration.badge, Except.map]

/-- What becomes of registrations is decided without the code that is registered. -/
theorem registerAll_badges {r : Registry (Extension σ ν)} {r' : Registry (Extension σ' ν')}
    {ds : List (Declared σ ν)} {ds' : List (Declared σ' ν')} (same : r.badges = r'.badges)
    (alike : ds.map Declared.badge = ds'.map Declared.badge) :
    (registerAll r ds).map badges = (registerAll r' ds').map badges := by
  induction ds generalizing r r' ds' with
  | nil =>
    obtain rfl : ds' = [] := by simpa using alike.symm
    simp [registerAll, Except.map, same]
  | cons d ds ih =>
    cases ds' with
    | nil => simp at alike
    | cons d' ds' =>
      simp only [List.map_cons, List.cons.injEq, Declared.badge, Prod.mk.injEq] at alike
      obtain ⟨⟨extension, position⟩, others⟩ := alike
      have one : (r.register d.extension d.position).map badges =
          (r'.register d'.extension d'.position).map badges := by
        rw [← register_badges, ← register_badges, same, extension, position]
      unfold registerAll
      cases registered : r.register d.extension d.position with
      | error error =>
        cases registered' : r'.register d'.extension d'.position with
        | error error' => simpa [registered, registered', Except.map] using one
        | ok q' => simp [registered, registered', Except.map] at one
      | ok q =>
        cases registered' : r'.register d'.extension d'.position with
        | error error' => simp [registered, registered', Except.map] at one
        | ok q' => exact ih (by simpa [registered, registered', Except.map] using one) others

end Registry

theorem rootRegistry_error_congr {σ' ν' : Type} {extensions : List (Declared σ ν)}
    {extensions' : List (Declared σ' ν')} {error : TestError}
    (alike : extensions.map Declared.badge = extensions'.map Declared.badge)
    (failed : rootRegistry extensions = .error error) : rootRegistry extensions' = .error error := by
  have given : (builtinExtensions ++ extensions).map Declared.badge =
      (builtinExtensions ++ extensions').map Declared.badge := by
    rw [List.map_append, List.map_append, alike]
    rfl
  have same : (rootRegistry extensions).map Registry.badges = (rootRegistry extensions').map Registry.badges :=
    Registry.registerAll_badges rfl given
  rw [failed] at same
  cases failed' : rootRegistry extensions' with
  | error error' => simpa [failed', Except.map, eq_comm] using same
  | ok registry => simp [failed', Except.map] at same

/-- The run that has ended in a world. -/
def Run.endedIn (w : World σ ν) (outcome : Except Halt Unit) : Run σ ν :=
  { trace := w.trace.toList, user := w.user
    halt := match outcome with
      | .ok () => none
      | .error h => some h }

/-- A call of the engine that does all it does in one world. -/
def launching (arithmetic : Arithmetic) (runtime : Runtime) (c : Configuration) (extensions : List (Declared σ ν))
    (tree : TestTree σ ν) : ExceptT EngineError (ExceptT PanicPayload (StateM (World σ ν))) (Except Halt Unit) := do
  ExceptT.mk (pure tree.validate)
  ExceptT.mk (ExceptT.mk (pure (startRuntime arithmetic runtime c)))
  let registry ← ExceptT.mk (pure ((rootRegistry extensions).mapError EngineError.extension))
  ExceptT.lift (ExceptT.lift (Execution.execute tree (environment c registry)).run)

section
variable {arithmetic : Arithmetic} {runtime : Runtime} {c : Configuration} {extensions : List (Declared σ ν)}
  {tree : TestTree σ ν} {user : σ} {e : EngineError} {payload : PanicPayload}

theorem execute_error_iff : execute c extensions tree user = .error e ↔
    tree.validate = .error e ∨
      tree.validate = .ok () ∧ ∃ error, rootRegistry extensions = .error error ∧ e = .extension error := by
  unfold execute
  cases tree.validate with
  | error e' => simp
  | ok =>
    cases rootRegistry extensions with
    | error error => simp [eq_comm]
    | ok registry => exact ⟨nofun, by simp⟩

theorem launch_of_starts (starts : tree.validate = .ok () → startRuntime arithmetic runtime c = .ok (.ok ())) :
    launch arithmetic runtime c extensions tree user = .ok (execute c extensions tree user) := by
  unfold launch
  cases valid : tree.validate with
  | error e => rw [execute_error_iff.mpr (.inl valid)]
  | ok => rw [starts valid]

theorem startRuntime_error_iff : startRuntime arithmetic runtime c = .error payload ↔
    (arithmetic = .checked ∧ c.overflows Key.defaultTimeout = true) ∧
      payload = .text "attempt to multiply with overflow" := by
  unfold startRuntime Settings.read
  by_cases overflows : arithmetic = .checked ∧ c.overflows Key.defaultTimeout = true
  · rw [if_pos overflows]
    simp [overflows, eq_comm]
  · rw [if_neg overflows]
    simp [overflows]

/-- A call panics if and only if the tree is valid and the timeout that the configuration gives has too many seconds for
checked arithmetic. That is before the runtime is started, and the world is left as it is. -/
theorem launch_panics : (launch arithmetic runtime c extensions tree user = .error payload ↔
      tree.validate = .ok () ∧ (arithmetic = .checked ∧ c.overflows Key.defaultTimeout = true) ∧
        payload = .text "attempt to multiply with overflow") ∧
    (launch arithmetic runtime c extensions tree user = .error payload →
      ∀ w, (launching arithmetic runtime c extensions tree).run.run.run w = (.error payload, w)) := by
  have panics : launch arithmetic runtime c extensions tree user = .error payload ↔
      tree.validate = .ok () ∧ startRuntime arithmetic runtime c = .error payload := by
    unfold launch
    cases tree.validate with
    | error e => simp
    | ok => rcases startRuntime arithmetic runtime c with _ | _ | _ <;> simp
  rw [← @startRuntime_error_iff arithmetic runtime, panics]
  refine ⟨.rfl, fun ⟨valid, fails⟩ w => ?_⟩
  unfold launching
  rw [valid, fails]
  rfl

theorem launch_error_iff : launch arithmetic runtime c extensions tree user = .ok (.error e) ↔
    tree.validate = .error e ∨ tree.validate = .ok () ∧ (startRuntime arithmetic runtime c = .ok (.error e) ∨
      startRuntime arithmetic runtime c = .ok (.ok ()) ∧
        ∃ error, rootRegistry extensions = .error error ∧ e = .extension error) := by
  unfold launch
  cases valid : tree.validate with
  | error e' => simp
  | ok =>
    rcases startRuntime arithmetic runtime c with _ | _ | _
    · simp
    · simp
    · simp [execute_error_iff, valid]

/-- A call that is refused leaves the world as it is. -/
theorem launching_refused (refused : launch arithmetic runtime c extensions tree user = .ok (.error e))
    (w : World σ ν) : (launching arithmetic runtime c extensions tree).run.run.run w = (.ok (.error e), w) := by
  unfold launching
  rcases launch_error_iff.mp refused with invalid | ⟨valid, fails | ⟨starts, error, failed, rfl⟩⟩
  · rw [invalid]
    rfl
  · rw [valid, fails]
    rfl
  · rw [valid, starts, failed]
    rfl

theorem launch_eq_launching : launch arithmetic runtime c extensions tree user =
    match (launching arithmetic runtime c extensions tree).run.run.run { user } with
    | (outcome, w) => outcome.map (·.map (Run.endedIn w)) := by
  unfold launch launching
  cases valid : tree.validate with
  | error e => rfl
  | ok =>
    rcases startRuntime arithmetic runtime c with _ | _ | _
    · rfl
    · rfl
    · dsimp only
      unfold execute
      rw [valid]
      cases rootRegistry extensions with
      | error error => rfl
      | ok registry => rfl

end

private def asking (name : String) (position : Position) : Declared Unit String :=
  ⟨{ name, beforeEach := some (.code (.done (.ok ()))) }, position⟩

/-- More minutes than a word counts the seconds of. -/
private def tooLong : Configuration := .ofList [(Key.defaultTimeout, "307445734561825861m")]

example : startRuntime .checked (fun _ => .ok ()) tooLong = .error (.text "attempt to multiply with overflow") ∧
    (Settings.ofConfiguration tooLong).defaultTimeout = some (.ofSeconds 44) := by decide +kernel

end TestEngine

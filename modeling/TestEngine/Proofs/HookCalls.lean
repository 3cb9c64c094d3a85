import TestEngine.Proofs.Makings
import TestEngine.Proofs.Registering

/-! Invocations of hooks. A hook knows its class by name only: at a node it is invoked on the innermost instance in
the chain there that was made of a class with that name. -/
namespace TestEngine
variable {σ ν : Type}

open Execution

def TestClass.hooks (c : TestClass σ ν) : Capability → List (Method σ ν Unit)
  | .beforeAll => c.beforeAll
  | .beforeEach => c.beforeEach
  | .afterEach => c.afterEach
  | .afterAll => c.afterAll
  | _ => []

/-- A node is come to below a path, with the registry that follows from those above it. -/
structure Seat.Arrived (env : Environment σ ν) (tree : TestTree σ ν) (s : Seat σ ν) (above : List (Seat σ ν)) :
    Prop where
  path : Seated env.settings tree above
  fits : s.Fits env.settings tree above
  registered : Registered env ((s :: above).map (·.toPlace))

/-- A path on which nodes below can be executed, with the registries that follow from those above. -/
structure Standing (env : Environment σ ν) (tree : TestTree σ ν) (seats : List (Seat σ ν)) : Prop where
  path : Seated env.settings tree seats
  registered : Registered env (seats.map (·.toPlace))

theorem Seat.Arrived.standing {env : Environment σ ν} {tree : TestTree σ ν} {s : Seat σ ν} {above : List (Seat σ ν)}
    (h : s.Arrived env tree above) (held : s.chain.isSome ↔ s.PerClass) : Standing env tree (s :: above) :=
  ⟨.cons s above h.fits held h.path, h.registered⟩

/-- A hook is invoked at a node of a path, for the class with a name. -/
structure HookCall (σ ν : Type) where
  seat : Seat σ ν
  above : List (Seat σ ν)
  capability : Capability
  className : String
  hook : Method σ ν Unit

namespace HookCall

def chain (h : HookCall σ ν) : List Level := inherited (h.seat :: h.above)

/-- What the hook is invoked on, if it is not static. -/
def target? (h : HookCall σ ν) : Option Level :=
  if h.hook.isStatic then none else h.chain.reverse.find? (·.className == h.className)

def entry (h : HookCall σ ν) : Entry ν :=
  .step h.seat.descriptor.id (.hook h.capability h.className h.hook.name (h.target?.map (·.inst.number))) .began

/-- What brings the hook: an extension that is registered for the node and called around each test, or the class that
the node is. -/
inductive Brought (h : HookCall σ ν) : Prop where
  | each (e : Extension σ ν) : e ∈ h.seat.registry.extensions h.capability →
      e.each? h.capability = some (.hook h.className h.hook) → Brought h
  | all (c : TestClass σ ν) : h.seat.descriptor.role = .testClass c → h.className = c.name →
      h.capability = .beforeAll ∨ h.capability = .afterAll → h.hook ∈ c.hooks h.capability → Brought h

/-- A hook that is not static is invoked only where the node has a chain of its own. -/
structure Sound (env : Environment σ ν) (tree : TestTree σ ν) (h : HookCall σ ν) : Prop
    extends h.seat.Arrived env tree h.above where
  brought : h.Brought
  held : h.hook.isStatic = false → h.seat.chain.isSome

end HookCall

theorem World.StandsAt.chain {w : World σ ν} {seats : List (Seat σ ν)} (there : w.StandsAt seats) :
    w.frames.findSome? (·.instances) = seats.findSome? (·.chain) := by
  have same := congrArg (List.findSome? Prod.snd) there
  simpa [List.findSome?_map, Function.comp_def, Frame.stand, Seat.stand] using same

/-- All that is told of invoking a hook is its mark. -/
theorem HookCall.tells (h : HookCall σ ν) (env : Environment σ ν) {w : World σ ν}
    (there : w.StandsAt (h.seat :: h.above)) :
    let reached := (invokeOnClass h.capability h.className h.hook).run.goes env w
    reached.2.frames.map Frame.stand = w.frames.map Frame.stand ∧ w.Tells reached.2 [] [h.entry] [] [] ∧
      ∀ payload, reached.1 ≠ .error (.panicked payload) := by
  have step (inst : Option Nat) (same : inst = h.target?.map (·.inst.number)) {code : Attempt σ ν Unit}
      (idle : Idle code.run) :
      let reached := (Engine.step (.hook h.capability h.className h.hook.name inst) code).run.goes env w
      reached.2.frames.map Frame.stand = w.frames.map Frame.stand ∧ w.Tells reached.2 [] [h.entry] [] [] ∧
        ∀ payload, reached.1 ≠ .error (.panicked payload) := by
    have tells := idle.tells_step (s := .hook h.capability h.className h.hook.name inst) nofun env w
    rw [there.currentId, same] at tells
    rw [same]
    exact tells
  have invokes (inst : Option TestInstance) : Idle (invoke h.hook inst).run := (Idle.discipline σ ν).invoke _ _
  unfold invokeOnClass
  by_cases static : h.hook.isStatic
  · rw [if_pos static]
    exact step none (by simp [target?, static]) (invokes none)
  · rw [if_neg static, ExceptT.run_bind_lift]
    have aimed : h.target? = h.chain.reverse.find? (·.className == h.className) := if_neg static
    have read {k : Option (List Level) → Engine σ ν (Except Fault Unit)} :
        (Engine.instances? >>= k).goes env w = (k ((h.seat :: h.above).findSome? (·.chain))).goes env w := by
      rw [← there.chain]
      rfl
    have chain : ((h.seat :: h.above).findSome? (·.chain)).getD [] = h.chain := rfl
    rw [read]
    dsimp only
    rw [chain, ← aimed]
    cases found : h.target? with
    | none => exact step none (by rw [found]; rfl) (.pure _)
    | some level => exact step (some level.inst.number) (by rw [found]; rfl) (invokes _)

end TestEngine

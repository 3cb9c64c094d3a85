import TestEngine.Proofs.Telling

/-! Questions put to the extensions of a chain. They are told with the worlds between them: each begins where the one
before it has ended, so that nothing else is done on the way. -/
namespace TestEngine
variable {σ ν α β ι κ γ δ : Type}

open Execution

/-- How user code ends that is asked something: with a value, in a fault, or together with the run. -/
abbrev Answer (α : Type) := Except Halt (Except Fault α)

/-- How code fails: in a fault, or together with the run. -/
abbrev Failure := Except Halt Fault

namespace Answer

def value (a : α) : Answer α := .ok (.ok a)

def failed (failure : Failure) : Answer α := failure.map .error

theorem cases (answer : Answer α) : (∃ a, answer = value a) ∨ ∃ failure, answer = failed failure := by
  rcases answer with halt | fault | a
  · exact .inr ⟨.error halt, rfl⟩
  · exact .inr ⟨.ok fault, rfl⟩
  · exact .inl ⟨a, rfl⟩

@[simp] theorem value_inj {a b : α} : value a = value b ↔ a = b := by simp [value]

@[simp] theorem failed_inj {failure failure' : Failure} :
    (failed failure : Answer α) = failed failure' ↔ failure = failure' := by
  cases failure <;> cases failure' <;> simp [failed, Except.map]

@[simp] theorem value_ne_failed {a : α} {failure : Failure} : value a ≠ failed failure := by
  cases failure <;> simp [value, failed, Except.map]

@[simp] theorem failed_ne_value {a : α} {failure : Failure} : failed failure ≠ value a := value_ne_failed.symm

/-- The answer with its value changed. -/
def map (f : α → β) (answer : Answer α) : Answer β := Except.map (Except.map f) answer

@[simp] theorem map_value (f : α → β) (a : α) : map f (value a) = value (f a) := rfl

@[simp] theorem map_failed (f : α → β) (failure : Failure) : map f (failed failure) = failed failure := by
  cases failure <;> rfl

theorem map_eq_value {f : α → β} {answer : Answer α} {b : β} :
    map f answer = value b ↔ ∃ a, answer = value a ∧ f a = b := by
  rcases cases answer with ⟨a, rfl⟩ | ⟨failure, rfl⟩ <;> simp

theorem map_eq_failed {f : α → β} {answer : Answer α} {failure : Failure} :
    map f answer = failed failure ↔ answer = failed failure := by
  rcases cases answer with ⟨a, rfl⟩ | ⟨failure, rfl⟩ <;> simp

end Answer

def Fault.relabel (change : TestError → TestError) : Fault → Fault
  | .error e => .error (change e)
  | .panic payload => .panic payload

namespace Engine
variable {m : Attempt σ ν α} {env : Environment σ ν} {w w' : World σ ν} {a : α} {failure : Failure}

theorem goes_bind_value (h : m.run.goes env w = (Answer.value a, w')) (k : α → Attempt σ ν β) :
    (m >>= k).run.goes env w = (k a).run.goes env w' := by
  rw [goes_attempt_bind, h]
  rfl

theorem goes_bind_failed (h : m.run.goes env w = (Answer.failed failure, w')) (k : α → Attempt σ ν β) :
    (m >>= k).run.goes env w = (Answer.failed failure, w') := by
  rw [goes_attempt_bind, h]
  cases failure <;> rfl

/-- What is made of a value by a function changes the answer and nothing else. -/
theorem goes_bind_pure {answer : Answer α} (h : m.run.goes env w = (answer, w')) (f : α → β) :
    (m >>= fun a => pure (f a)).run.goes env w = (Answer.map f answer, w') := by
  rw [goes_attempt_bind, h]
  rcases answer with _ | _ | _ <;> rfl

theorem goes_relabel_value (change : TestError → TestError) (h : m.run.goes env w = (Answer.value a, w')) :
    (relabel change m).run.goes env w = (Answer.value a, w') := by
  show (m.run >>= _).goes env w = _
  rw [goes_bind, h]
  rfl

theorem goes_relabel_failed (change : TestError → TestError) (h : m.run.goes env w = (Answer.failed failure, w')) :
    (relabel change m).run.goes env w = (Answer.failed (failure.map (Fault.relabel change)), w') := by
  show (m.run >>= _).goes env w = _
  rw [goes_bind, h]
  rcases failure with _ | _ | _ <;> rfl

end Engine

/-- Each leads on from where the one before it has led. -/
inductive Successive (leads : γ → δ → γ → Prop) : γ → List δ → γ → Prop where
  | nil : Successive leads x [] x
  | cons : leads x d y → Successive leads y ds z → Successive leads x (d :: ds) z

theorem Successive.single {leads : γ → δ → γ → Prop} {x y : γ} {d : δ} (h : leads x d y) : Successive leads x [d] y :=
  .cons h .nil

/-- The question is put in the one world, and the other is the world behind its answer. -/
def Puts (env : Environment σ ν) (question : ι → Attempt σ ν α) (w : World σ ν) (asked : ι × Answer α)
    (w' : World σ ν) : Prop := (question asked.1).run.goes env w = (asked.2, w')

/-- All are asked in order, up to the first whose answer is decisive. -/
inductive UpTo (decisive : ι → κ → Prop) : List ι → List (ι × κ) → Prop where
  | nil : UpTo decisive [] []
  | stop : decisive i k → UpTo decisive (i :: is) [(i, k)]
  | pass : ¬ decisive i k → UpTo decisive is asked → UpTo decisive (i :: is) ((i, k) :: asked)

end TestEngine

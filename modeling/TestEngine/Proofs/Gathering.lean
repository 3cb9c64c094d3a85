import TestEngine.Collector

/-! Gathering loses no error: whatever primary error a collector arrives at, all errors taken in are in
it, each with its kind and message, and it is an abort only where all of them are. -/
namespace TestEngine

namespace TestError

mutual
/-- The kind and message of an error and of all errors suppressed under it, at any depth. -/
def flatten : TestError → List (ErrorKind × String)
  | ⟨kind, message, suppressed⟩ => (kind, message) :: flattenAll suppressed
def flattenAll : List TestError → List (ErrorKind × String)
  | [] => []
  | e :: es => flatten e ++ flattenAll es
end

theorem flattenAll_append (es fs : List TestError) :
    flattenAll (es ++ fs) = flattenAll es ++ flattenAll fs := by
  induction es with
  | nil => rfl
  | cons e es ih => simp only [List.cons_append, flattenAll, ih, List.append_assoc]

theorem flatten_suppress (e later : TestError) : (e.suppress later).flatten = e.flatten ++ later.flatten := by
  cases e
  simp only [suppress, flatten, flattenAll_append, flattenAll, List.append_nil, List.cons_append]

@[simp] theorem isAborted_suppress (e later : TestError) : (e.suppress later).isAborted = e.isAborted := rfl

end TestError

/-- An error stands for the errors that were raised, or there is none because none was raised. -/
structure Gathers (o : Option TestError) (es : List TestError) : Prop where
  none_iff : o = none ↔ es = []
  alone : ∀ e, es = [e] → o = some e
  aborted : ∀ e, o = some e → (e.isAborted ↔ ∀ x ∈ es, x.isAborted)
  flattened : (TestError.flattenAll o.toList).Perm (TestError.flattenAll es)

/-- What a result says about the errors that were raised. -/
structure ExecutionResult.SumsUp (r : ExecutionResult) (es : List TestError) : Prop where
  successful : r.isSuccessful ↔ es = []
  aborted : r.isAborted ↔ es ≠ [] ∧ ∀ e ∈ es, e.isAborted
  failed : r.isFailed ↔ ∃ e ∈ es, ¬ e.isAborted
  flattened : (TestError.flattenAll r.error?.toList).Perm (TestError.flattenAll es)

namespace Gathers

theorem nil : Gathers none [] := ⟨by simp, by simp, by simp, .refl _⟩

theorem single (e : TestError) : Gathers (some e) [e] := by
  refine ⟨by simp, by simp, ?_, .refl _⟩
  intro x same
  cases same
  simp

theorem nonempty (g : Gathers (some e) es) : es ≠ [] :=
  fun none => Option.some_ne_none e (g.none_iff.mpr none)

/-- Whichever of two errors is suppressed under the other, both are there. -/
theorem add {c : Collector} (g : Gathers c.primary es) (h : Gathers (some e) fs) :
    Gathers (c.add e).primary (es ++ fs) := by
  have flat := h.flattened
  simp only [Option.toList_some, TestError.flattenAll, List.append_nil] at flat
  unfold Collector.add
  cases first : c.primary with
  | none =>
    rw [g.none_iff.mp first, List.nil_append]
    exact h
  | some p =>
    have flatFirst := g.flattened
    simp only [first, Option.toList_some, TestError.flattenAll, List.append_nil] at flatFirst
    have mixed := and_congr (g.aborted p first) (h.aborted e rfl)
    have all : (∀ x ∈ es ++ fs, x.isAborted) ↔ p.isAborted ∧ e.isAborted := by
      rw [mixed]
      simp only [List.mem_append, or_imp, forall_and]
    have some_raised : es ++ fs ≠ [] := by simp [nonempty h]
    have several : ∀ x, es ++ fs ≠ [x] := by
      intro x single
      have before : es ≠ [] := fun none => by simp [g.none_iff.mpr none] at first
      rcases List.append_eq_singleton_iff.mp single with ⟨none, _⟩ | ⟨_, none⟩
      · exact before none
      · exact nonempty h none
    dsimp only
    split
    · rename_i promoted
      simp only [Bool.and_eq_true, Bool.not_eq_true'] at promoted
      refine ⟨by simp [some_raised], fun x single => absurd single (several x), ?_, ?_⟩
      · intro x same
        cases same
        simp only [TestError.isAborted_suppress, all, promoted.2]
        simp
      · simp only [Option.toList_some, TestError.flattenAll, List.append_nil,
          TestError.flatten_suppress, TestError.flattenAll_append]
        exact (flat.append flatFirst).trans List.perm_append_comm
    · rename_i kept
      refine ⟨by simp [some_raised], fun x single => absurd single (several x), ?_, ?_⟩
      · intro x same
        cases same
        simp only [TestError.isAborted_suppress, all]
        cases hp : p.isAborted <;> cases he : e.isAborted <;> simp_all
      · simp only [Option.toList_some, TestError.flattenAll, List.append_nil,
          TestError.flatten_suppress, TestError.flattenAll_append]
        exact flatFirst.append flat

end Gathers

def raisedBy {α : Type} : Except Fault α → Option TestError
  | .ok _ => none
  | .error fault => some fault.toError

theorem Gathers.isEmpty_iff {c : Collector} (g : Gathers c.primary es) : c.isEmpty ↔ es = [] := by
  rw [← g.none_iff]
  exact Option.isNone_iff_eq_none

theorem Gathers.toResult {c : Collector} (g : Gathers c.primary es) : c.toResult.SumsUp es := by
  unfold Collector.toResult
  cases h : c.primary with
  | none =>
    rw [g.none_iff.mp h]
    constructor <;> simp [ExecutionResult.isSuccessful, ExecutionResult.isAborted,
      ExecutionResult.isFailed, ExecutionResult.error?]
  | some e =>
    have raised : es ≠ [] := by
      intro none
      rw [g.none_iff.mpr none] at h
      contradiction
    have aborted := g.aborted e h
    have flat := g.flattened
    rw [h] at flat
    have mixed : (∃ x ∈ es, ¬ x.isAborted) ↔ ¬ e.isAborted := by simp [aborted]
    dsimp only
    unfold ExecutionResult.ofError
    split <;> rename_i kind
    · refine ⟨by simp [ExecutionResult.isSuccessful, raised], ?_, ?_, flat⟩
      · simpa [ExecutionResult.isAborted, raised] using aborted.mp kind
      · rw [mixed]
        simp [ExecutionResult.isFailed, kind]
    · refine ⟨by simp [ExecutionResult.isSuccessful, raised], ?_, ?_, flat⟩
      · simp only [ExecutionResult.isAborted, Bool.false_eq_true, false_iff, not_and]
        exact fun _ all => kind (aborted.mpr all)
      · rw [mixed]
        simp [ExecutionResult.isFailed, kind]

/-- The first of the errors that were raised is the one that stands for them all, unless it is an abort. -/
def Foremost (o : Option TestError) (es : List TestError) : Prop :=
  ∀ first, es.head? = some first → first.isAborted = false →
    ∃ e, o = some e ∧ e.kind = first.kind ∧ e.message = first.message

/-- An error stands for the errors that were raised, and the first of them is in front. -/
structure Collects (o : Option TestError) (es : List TestError) : Prop extends Gathers o es where
  leading : Foremost o es

/-- A result tells the errors that were raised, the first of them in front. -/
structure ExecutionResult.Tells (r : ExecutionResult) (es : List TestError) : Prop extends r.SumsUp es where
  leading : Foremost r.error? es

namespace ExecutionResult

theorem error?_toResult (c : Collector) : c.toResult.error? = c.primary := by
  unfold Collector.toResult
  cases c.primary with
  | none => rfl
  | some e =>
    dsimp only
    unfold ofError
    split <;> rfl

/-- Closing the store adds its error, if any, to those of the steps before. -/
theorem withCleanup_toResult (c : Collector) (cleanup : Except Fault Unit) :
    c.toResult.withCleanup (match cleanup with
      | .ok () => .ok ()
      | .error fault => .error fault.toError) = (c.record cleanup).toResult := by
  cases cleanup with
  | ok _ => rfl
  | error fault => simp only [withCleanup, error?_toResult, Collector.record]

end ExecutionResult

namespace Collects

theorem nil : Collects none [] := ⟨.nil, nofun⟩

theorem single (e : TestError) : Collects (some e) [e] := by
  refine ⟨.single e, ?_⟩
  rintro _ ⟨⟩ _
  exact ⟨e, rfl, rfl, rfl⟩

/-- Errors that come later do not get in front of one that is no abort. -/
theorem add {c : Collector} (g : Collects c.primary es) (h : Collects (some e) fs) :
    Collects (c.add e).primary (es ++ fs) := by
  refine ⟨g.toGathers.add h.toGathers, ?_⟩
  cases es with
  | nil =>
    have none : c.primary = none := g.none_iff.mpr rfl
    simpa [Collector.add, none] using h.leading
  | cons x es =>
    intro first same failure
    obtain ⟨p, primary, kind, message⟩ := g.leading first same failure
    have kept : p.isAborted = false := by simpa only [TestError.isAborted, kind] using failure
    exact ⟨p.suppress e, by simp [Collector.add, primary, kept], kind, message⟩

theorem record {c : Collector} {outcome : Except Fault Unit} (g : Collects c.primary es)
    (h : Collects (raisedBy outcome) fs) : Collects (c.record outcome).primary (es ++ fs) := by
  cases outcome with
  | ok _ =>
    rw [h.none_iff.mp rfl, List.append_nil]
    exact g
  | error fault => exact g.add h

theorem toResult {c : Collector} (g : Collects c.primary es) : c.toResult.Tells es :=
  ⟨g.toGathers.toResult, by
    rw [ExecutionResult.error?_toResult]
    exact g.leading⟩

end Collects

end TestEngine

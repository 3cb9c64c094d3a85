import TestEngine.Proofs.Gathering

/-! Which of several errors is primary. It is the first one, unless that is an abort and an error behind it is none:
then it is the first such error, and the aborts before it are suppressed under it as one. -/
namespace TestEngine

namespace TestError

/-- The error with later ones suppressed under it, behind those it has already. -/
def suppressAll (e : TestError) (later : List TestError) : TestError :=
  { e with suppressed := e.suppressed ++ later }

@[simp] theorem suppressAll_nil (e : TestError) : e.suppressAll [] = e := by
  cases e
  simp [suppressAll]

theorem suppressAll_suppress (e first : TestError) (later : List TestError) :
    (e.suppress first).suppressAll later = e.suppressAll (first :: later) := by
  simp [suppressAll, suppress]

/-- None of the later errors outranks this one: it is no abort, or they are all aborts too. -/
def Leads (e : TestError) (later : List TestError) : Prop :=
  e.isAborted = false ∨ ∀ x ∈ later, x.isAborted = true

end TestError

namespace Collector

/-- What is put into a collector: an error, or how a step has ended. -/
inductive Intake where
  | error (e : TestError)
  | outcome (result : Except Fault Unit)

/-- A step that has ended well raises nothing. A panic is a failure. -/
def Intake.raised : Intake → Option TestError
  | .error e => some e
  | .outcome result => raisedBy result

def take (c : Collector) : Intake → Collector
  | .error e => c.add e
  | .outcome result => c.record result

def ofIntakes (intakes : List Intake) : Collector := intakes.foldl take .empty

theorem foldl_take (intakes : List Intake) (c : Collector) :
    intakes.foldl take c = (intakes.filterMap Intake.raised).foldl add c := by
  induction intakes generalizing c with
  | nil => rfl
  | cons intake intakes ih =>
    rw [List.foldl_cons, ih]
    cases intake with
    | error e => rfl
    | outcome result => cases result <;> rfl

theorem gathers_foldl {c : Collector} {before : List TestError} (g : Gathers c.primary before)
    (errors : List TestError) : Gathers (errors.foldl add c).primary (before ++ errors) := by
  induction errors generalizing c before with
  | nil => simpa using g
  | cons e errors ih => simpa using ih (g.add (.single e))

theorem gathers_ofIntakes (intakes : List Intake) :
    Gathers (ofIntakes intakes).primary (intakes.filterMap Intake.raised) := by
  rw [ofIntakes, foldl_take]
  exact gathers_foldl .nil _

/-- An error that is not outranked stays primary. -/
theorem foldl_add_of_leads {p : TestError} {errors : List TestError} (leads : p.Leads errors) :
    errors.foldl add ⟨some p⟩ = ⟨some (p.suppressAll errors)⟩ := by
  induction errors generalizing p with
  | nil => simp
  | cons e errors ih =>
    have kept : add ⟨some p⟩ e = ⟨some (p.suppress e)⟩ := by
      rcases leads with failure | aborts
      · simp [add, failure]
      · simp [add, aborts e (by simp)]
    have still : (p.suppress e).Leads errors :=
      leads.imp_right fun aborts x member => aborts x (by simp [member])
    rw [List.foldl_cons, kept, ih still, TestError.suppressAll_suppress]

/-- The first error behind aborts that is none takes their place. -/
theorem foldl_add_outranked {p failure : TestError} {aborts later : List TestError} (aborted : p.isAborted = true)
    (all : ∀ e ∈ aborts, e.isAborted = true) (real : failure.isAborted = false) :
    (aborts ++ failure :: later).foldl add ⟨some p⟩ =
      ⟨some (failure.suppressAll (p.suppressAll aborts :: later))⟩ := by
  have outranked : add ⟨some (p.suppressAll aborts)⟩ failure = ⟨some (failure.suppress (p.suppressAll aborts))⟩ := by
    have still : (p.suppressAll aborts).isAborted = true := aborted
    simp [add, still, real]
  have stays : (failure.suppress (p.suppressAll aborts)).isAborted = false := real
  rw [List.foldl_append, foldl_add_of_leads (.inr all), List.foldl_cons, outranked,
    foldl_add_of_leads (.inl stays), TestError.suppressAll_suppress]

end Collector

/-- An error that is outranked is an abort, and so are those up to the one that outranks it. -/
theorem TestError.exists_of_not_leads {e : TestError} {later : List TestError} (h : ¬ e.Leads later) :
    e.isAborted = true ∧ ∃ aborts failure behind, later = aborts ++ failure :: behind ∧
      (∀ x ∈ aborts, x.isAborted = true) ∧ failure.isAborted = false := by
  simp only [Leads, not_or, Bool.not_eq_false] at h
  have found : (later.find? fun x => !x.isAborted).isSome := by simpa using h.2
  obtain ⟨failure, first⟩ := Option.isSome_iff_exists.mp found
  obtain ⟨real, aborts, behind, same, before⟩ := List.find?_eq_some_iff_append.mp first
  exact ⟨h.1, aborts, failure, behind, same, by simpa using before, by simpa using real⟩

def ExecutionResult.flags (r : ExecutionResult) : Bool × Bool × Bool := (r.isSuccessful, r.isFailed, r.isAborted)

/-- What a result says depends on the kinds of the errors alone, and not on their order. -/
theorem ExecutionResult.SumsUp.flags_eq {r r' : ExecutionResult} {es es' : List TestError} (h : r.SumsUp es)
    (h' : r'.SumsUp es') (perm : es.Perm es') : r.flags = r'.flags := by
  have successful : r.isSuccessful = r'.isSuccessful := by
    rw [Bool.eq_iff_iff, h.successful, h'.successful]
    exact ⟨fun none => List.nil_perm.mp (none ▸ perm), fun none => List.perm_nil.mp (none ▸ perm)⟩
  have failed : r.isFailed = r'.isFailed := by
    rw [Bool.eq_iff_iff, h.failed, h'.failed]
    simp only [perm.mem_iff]
  have aborted : r.isAborted = r'.isAborted := by
    rw [Bool.eq_iff_iff, h.aborted, h'.aborted]
    simp only [perm.mem_iff, ne_eq, ← List.length_eq_zero_iff, perm.length_eq]
  simp only [flags, successful, failed, aborted]

/-- Among errors that are put into a new collector, as such or by the steps that raise them, the first is primary and
suppresses the others in order if it is no abort or all of them are aborts. Otherwise the first that is no abort is
primary: it suppresses the first one, under which are the aborts in between, and then the later ones. Whatever their
order, the result is of the same kind, and it is the one that the error raised in the end leads to. -/
theorem errors_ranked (intakes : List Collector.Intake) :
    let errors := intakes.filterMap Collector.Intake.raised
    let c := Collector.ofIntakes intakes
    (∀ first later, errors = first :: later →
      (first.Leads later → c.primary = some (first.suppressAll later)) ∧
      (¬ first.Leads later → ∃ aborts failure behind, later = aborts ++ failure :: behind ∧
        (∀ e ∈ aborts, e.isAborted = true) ∧ failure.isAborted = false ∧
        c.primary = some (failure.suppressAll (first.suppressAll aborts :: behind)))) ∧
    (∀ others, (others.filterMap Collector.Intake.raised).Perm errors →
      (Collector.ofIntakes others).toResult.flags = c.toResult.flags) ∧
    ExecutionResult.ofExcept c.toExcept = c.toResult ∧
    c.toExcept = match c.toResult.error? with
      | none => .ok ()
      | some e => .error e := by
  intro errors c
  have gathers : Gathers c.primary errors := Collector.gathers_ofIntakes intakes
  refine ⟨fun first later same => ?_, fun others perm => ?_, ?_, ?_⟩
  · have folded : c = later.foldl Collector.add ⟨some first⟩ := by
      show Collector.ofIntakes intakes = _
      rw [Collector.ofIntakes, Collector.foldl_take, show intakes.filterMap _ = _ from same]
      rfl
    constructor
    · intro leads
      rw [folded, Collector.foldl_add_of_leads leads]
    · intro outranked
      obtain ⟨aborted, aborts, failure, behind, rfl, all, real⟩ := TestError.exists_of_not_leads outranked
      refine ⟨aborts, failure, behind, rfl, all, real, ?_⟩
      rw [folded, Collector.foldl_add_outranked aborted all real]
  · have gathered := Collector.gathers_ofIntakes others
    exact gathered.toResult.flags_eq gathers.toResult perm
  · unfold Collector.toExcept Collector.toResult
    cases c.primary <;> rfl
  · rw [ExecutionResult.error?_toResult]
    rfl

/-- Two aborts, a panic, and an error that comes too late. -/
private def rankedIntakes : List Collector.Intake :=
  [.error (.aborted "first"), .outcome (.error (.error ⟨.aborted, "second", [.failure "inner"]⟩)), .outcome (.ok ()),
    .outcome (.error (.panic (.text "boom"))), .error (.timeout "late")]

theorem errors_ranked_sample :
    let later := [⟨.aborted, "second", [.failure "inner"]⟩, .failure "boom", .timeout "late"]
    rankedIntakes.filterMap Collector.Intake.raised = .aborted "first" :: later ∧
    ¬ (TestError.aborted "first").Leads later ∧
    (∃ aborts failure behind, later = aborts ++ failure :: behind ∧ (∀ e ∈ aborts, e.isAborted = true) ∧
      failure.isAborted = false ∧ (Collector.ofIntakes rankedIntakes).primary =
        some (failure.suppressAll ((TestError.aborted "first").suppressAll aborts :: behind))) ∧
    (Collector.ofIntakes rankedIntakes).primary = some ⟨.failure, "boom",
      [⟨.aborted, "first", [⟨.aborted, "second", [.failure "inner"]⟩]⟩, .timeout "late"]⟩ ∧
    (Collector.ofIntakes rankedIntakes.reverse).toResult.flags =
      (Collector.ofIntakes rankedIntakes).toResult.flags := by
  obtain ⟨primary, reordered, _⟩ := errors_ranked rankedIntakes
  have outranked : ¬ (TestError.aborted "first").Leads
      [⟨.aborted, "second", [.failure "inner"]⟩, .failure "boom", .timeout "late"] := by
    simp [TestError.Leads, TestError.isAborted, TestError.aborted, TestError.failure]
  refine ⟨rfl, outranked, (primary _ _ rfl).2 outranked, by decide, reordered _ ?_⟩
  rw [List.filterMap_reverse]
  exact List.reverse_perm _

end TestEngine

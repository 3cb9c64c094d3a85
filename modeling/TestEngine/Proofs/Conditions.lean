import TestEngine.Proofs.Asking

/-! The evaluation of conditions, told by what they are asked. The first that does not let the node be enabled decides,
and a condition that the configuration deactivates counts for as much as one that is not registered. -/
namespace TestEngine
variable {σ ν ε : Type}

open Execution

/-- The name is matched by a pattern of the configuration. Patterns stand between commas; the blanks around them do not
belong to them, and blank and malformed ones match nothing. -/
def Deactivates (glob : Glob.Library) (c : Configuration) (name : String) : Prop :=
  ∃ text, c.get? Key.deactivateConditions = some text ∧
    ∃ piece ∈ text.toList.splitOn ',', Text.trim piece ≠ [] ∧
      ∃ pattern, glob (String.ofList (Text.trim piece)) = some pattern ∧ pattern name = true

theorem any_deactivatedBy_iff (glob : Glob.Library) (c : Configuration) (name : String) :
    (deactivatedBy glob c).any (· name) = true ↔ Deactivates glob c name := by
  unfold deactivatedBy Deactivates
  split
  · rename_i none
    simp [none]
  · rename_i text found
    simp only [found, List.any_eq_true, List.mem_filterMap, List.mem_filter, List.mem_map, Text.split_eq_splitOn,
      Option.some.injEq, exists_eq_left']
    constructor
    · rintro ⟨pattern, ⟨_, ⟨⟨piece, member, rfl⟩, something⟩, parsed⟩, matched⟩
      exact ⟨piece, member, by simpa using something, pattern, parsed, matched⟩
    · rintro ⟨piece, member, something, pattern, parsed, matched⟩
      exact ⟨pattern, ⟨_, ⟨⟨piece, member, rfl⟩, by simpa using something⟩, parsed⟩, matched⟩

instance (glob : Glob.Library) (c : Configuration) (name : String) : Decidable (Deactivates glob c name) :=
  decidable_of_iff _ (any_deactivatedBy_iff glob c name)

namespace Registry

/-- The layers without the registrations of such extensions. -/
def without (p : ε → Bool) (r : Registry ε) : Registry ε :=
  let prune (layer : Layer ε) : Layer ε :=
    { layer with registrations := layer.registrations.filter fun x => !p x.extension }
  { own := prune r.own, above := r.above.map prune }

theorem supporting_without [Registrable ε] (p : ε → Bool) (r : Registry ε) (capability : Capability) :
    (r.without p).supporting capability = (r.supporting capability).filter fun x => !p x.extension := by
  have layers : (r.without p).layers = r.layers.map fun layer =>
      { layer with registrations := layer.registrations.filter fun x => !p x.extension } := rfl
  unfold supporting
  rw [layers, ← List.map_reverse, List.flatMap_map, ← List.filter_flatMap, List.filter_filter, List.filter_filter]
  simp only [Bool.and_comm]

/-- What is left applies in the order it had. -/
theorem extensions_without [Registrable ε] (p : ε → Bool) (r : Registry ε) (capability : Capability) :
    (r.without p).extensions capability = (r.extensions capability).filter fun e => !p e := by
  have inward : (r.without p).inward capability = (r.inward capability).filter fun x => !p x.extension := by
    simp only [Registry.inward, supporting_without, List.filter_append, List.filter_filter, Bool.and_comm]
  have outside : ((r.without p).inward capability).map (·.extension) =
      ((r.inward capability).map (·.extension)).filter fun e => !p e := by
    rw [inward, List.filter_map]
    rfl
  unfold extensions
  rw [outside]
  split
  · rw [List.filter_reverse]
  · rfl

end Registry

abbrev Clause (σ ν : Type) := String × Code σ ν Verdict

def conditionsOf (es : List (Extension σ ν)) : List (Clause σ ν) :=
  es.filterMap fun e => e.condition.map (e.name, ·)

/-- One condition is asked, in a step of its own. -/
def askCondition (run : Runner σ ν) (x : Clause σ ν) : Attempt σ ν Verdict :=
  Engine.step (.condition x.1) (call run x.2)

/-- Whether an answer is anything but a verdict for the node. -/
def Decisive (_ : Clause σ ν) (answer : Answer Verdict) : Prop := ∀ reason, answer ≠ .value (.enabled reason)

/-- What the answer of the last that was asked comes to. -/
inductive ComesTo : List (Clause σ ν × Answer Verdict) → Except Halt (Except TestError Verdict) → Prop where
  | enabled : (∀ a ∈ asked, ¬ Decisive a.1 a.2) → ComesTo asked (.ok (.ok (.enabled "No disabling condition found")))
  | disabled (before) : ComesTo (before ++ [(x, .value (.disabled reason))]) (.ok (.ok (.disabled reason)))
  | failed (before) : ComesTo (before ++ [(x, .failed (.ok fault))])
      (.ok (.error (.configuration ("Failed to evaluate condition [" ++ x.1 ++ "]: " ++ fault.toError.message))))
  | halted (before) : ComesTo (before ++ [(x, .failed (.error halt))]) (.error halt)

namespace ComesTo
variable {x : Clause σ ν} {asked : List (Clause σ ν × Answer Verdict)}
  {outcome : Except Halt (Except TestError Verdict)}

/-- What comes of the conditions behind one for the node. -/
theorem cons (reason : String) (h : ComesTo asked outcome) :
    ComesTo ((x, .value (.enabled reason)) :: asked) outcome := by
  cases h with
  | enabled each => exact .enabled (List.forall_mem_cons.mpr ⟨fun decisive => decisive reason rfl, each⟩)
  | disabled before => exact .disabled (_ :: before)
  | failed before => exact .failed (_ :: before)
  | halted before => exact .halted (_ :: before)

theorem single {answer : Answer Verdict} (decisive : Decisive x answer) : ComesTo [(x, answer)] (match answer with
    | .error h => .error h
    | .ok (.error fault) => .ok (.error (conditionFailed x.1 fault))
    | .ok (.ok verdict) => .ok (.ok verdict)) := by
  rcases answer with halt | fault | reason | reason
  · exact .halted []
  · exact .failed []
  · exact absurd rfl (decisive reason)
  · exact .disabled []

end ComesTo

theorem askConditions_told (run : Runner σ ν) (env : Environment σ ν) (ds : List (String → Bool))
    (es : List (Extension σ ν)) (w : World σ ν) :
    ∃ asked outcome w', (askConditions run ds es).goes env w = (outcome, w') ∧
      Successive (Puts env (askCondition run)) w asked w' ∧
      UpTo Decisive ((conditionsOf es).filter fun x => !ds.any (· x.1)) asked ∧ ComesTo asked outcome := by
  induction es generalizing w with
  | nil => exact ⟨[], _, w, rfl, .nil, .nil, .enabled (by simp)⟩
  | cons e es ih =>
    cases condition : e.condition with
    | none =>
      have passed : conditionsOf (e :: es) = conditionsOf es := by simp [conditionsOf, condition]
      rw [askConditions, condition, passed]
      exact ih w
    | some code =>
      have here : conditionsOf (e :: es) = (e.name, code) :: conditionsOf es := by simp [conditionsOf, condition]
      rw [askConditions, condition, here, List.filter_cons]
      by_cases deactivated : ds.any (· e.name) = true
      · simp only [deactivated]
        exact ih w
      · simp only [deactivated]
        rcases puts : (askCondition run (e.name, code)).run.goes env w with ⟨answer, between⟩
        have asks : Puts env (askCondition run) w ((e.name, code), answer) between := puts
        show ∃ _ _ _, ((askCondition run (e.name, code)).run >>= _).goes env w = _ ∧ _
        rw [Engine.goes_bind, puts]
        by_cases decisive : Decisive (e.name, code) answer
        · refine ⟨_, _, _, ?_, .single asks, .stop decisive, .single decisive⟩
          rcases answer with _ | _ | reason | _
          · rfl
          · rfl
          · exact absurd rfl (decisive reason)
          · rfl
        · obtain ⟨reason, rfl⟩ : ∃ reason, answer = Answer.value (.enabled reason) := by
            simpa [Decisive] using decisive
          obtain ⟨asked, outcome, w', goes, rest, upTo, concludes⟩ := ih between
          exact ⟨_, outcome, w', goes, .cons asks rest, .pass decisive upTo, concludes.cons reason⟩

/-- Conditions that are deactivated might as well not be there. -/
theorem askConditions_filter (run : Runner σ ν) (ds : List (String → Bool)) (es : List (Extension σ ν)) :
    askConditions run ds es = askConditions run [] (es.filter fun e => !ds.any (· e.name)) := by
  induction es with
  | nil => rfl
  | cons e es ih =>
    rw [List.filter_cons]
    by_cases deactivated : ds.any (· e.name) = true
    · rw [askConditions]
      simp only [deactivated, Bool.not_true, Bool.false_eq_true, if_false, if_true, ih]
      cases e.condition <;> rfl
    · rw [askConditions, ih]
      simp only [deactivated, Bool.not_false, if_true]
      rw [askConditions]
      rfl

/-- Conditions are evaluated in the order of their chain, those left out that the configuration deactivates, up to the
first that is decisive, whose answer is then the outcome; a condition that fails or panics makes an error of the
configuration that names it. So it is as if nothing were deactivated, and the conditions that are had not been
registered. What a pattern is, and what it matches, is left to the library. -/
theorem conditions_evaluated (glob : Glob.Library) (run : Runner σ ν) (env : Environment σ ν) (w : World σ ν)
    (c : Configuration) :
    ∃ asked outcome w', (evaluateWith run (deactivatedBy glob c)).goes env w = (outcome, w') ∧
      Successive (Puts env (askCondition run)) w asked w' ∧
      UpTo Decisive ((conditionsOf (w.extensions .condition)).filter fun x => ¬ Deactivates glob c x.1) asked ∧
      ComesTo asked outcome ∧
      ∀ f above, w.frames = f :: above →
        (askConditions run [] ((f.registry.without fun e => Deactivates glob c e.name).extensions
          .condition)).goes env w = (outcome, w') := by
  have same (name : String) : (!(deactivatedBy glob c).any (· name)) = decide (¬ Deactivates glob c name) := by
    rw [decide_not, Bool.eq_iff_iff, Bool.not_eq_true', Bool.not_eq_true', decide_eq_false_iff_not,
      ← any_deactivatedBy_iff, Bool.not_eq_true]
  have evaluated : (evaluateWith run (deactivatedBy glob c)).goes env w =
      (askConditions run (deactivatedBy glob c) (w.extensions .condition)).goes env w := by
    rw [evaluateWith, Engine.goes_bind]
    rfl
  obtain ⟨asked, outcome, w', goes, successive, upTo, concludes⟩ :=
    askConditions_told run env (deactivatedBy glob c) (w.extensions .condition) w
  simp only [same] at upTo
  refine ⟨asked, outcome, w', evaluated.trans goes, successive, upTo, concludes, fun f above frames => ?_⟩
  have chain : w.extensions .condition = f.registry.extensions .condition := by
    rw [World.extensions, frames]
    rfl
  rw [← goes, chain, askConditions_filter run (deactivatedBy glob c), Registry.extensions_without]
  simp only [same, decide_not]

end TestEngine

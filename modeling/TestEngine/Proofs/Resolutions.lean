import Mathlib.Data.List.Forall2
import TestEngine.Proofs.Asking
import TestEngine.Proofs.Resolving

/-! The resolution of parameters, told by what the resolvers are asked. Each parameter takes the one resolver that
supports it, and the resolution ends with the first parameter that is not given a value it accepts. -/
namespace TestEngine
variable {σ ν ι α : Type}

open Execution

/-- All have said whether they support the parameter, and `i` alone does. -/
def Sole (is : List ι) (asked : List (ι × Answer Bool)) (i : ι) : Prop :=
  ∃ before after, is = before ++ i :: after ∧
    asked = before.map (·, .value false) ++ (i, .value true) :: after.map (·, .value false)

theorem not_sole_nil {i : ι} : ¬ Sole [] [] i := by
  rintro ⟨before, after, none, -⟩
  simp at none

theorem sole_cons {is : List ι} {asked : List (ι × Answer Bool)} {answer : Answer Bool} {i j : ι} :
    Sole (j :: is) ((j, answer) :: asked) i ↔
      (answer = .value true ∧ j = i ∧ asked = is.map (·, .value false)) ∨
        (answer = .value false ∧ Sole is asked i) := by
  constructor
  · rintro ⟨_ | ⟨first, before⟩, after, order, answers⟩
    · cases order
      cases answers
      exact .inl ⟨rfl, rfl, rfl⟩
    · cases order
      cases answers
      exact .inr ⟨rfl, before, after, rfl, rfl⟩
  · rintro (⟨rfl, rfl, rfl⟩ | ⟨rfl, before, after, rfl, rfl⟩)
    · exact ⟨[], is, rfl, rfl⟩
    · exact ⟨j :: before, after, rfl, rfl⟩

/-- What comes of asking resolvers whether they support a parameter. -/
inductive Polled (wrap : TestError → TestError) : List ι → List (ι × Answer Bool) → Answer (List ι) → Prop where
  | nil : Polled wrap [] [] (.value [])
  | supports : Polled wrap is asked outcome →
      Polled wrap (i :: is) ((i, .value true) :: asked) (.map (i :: ·) outcome)
  | declines : Polled wrap is asked outcome → Polled wrap (i :: is) ((i, .value false) :: asked) outcome
  | failed (failure : Failure) :
      Polled wrap (i :: is) [(i, .failed failure)] (.failed (failure.map (Fault.relabel wrap)))

/-- Whether a resolver says neither that it supports a parameter nor that it does not. -/
def Unheard (_ : ι) (answer : Answer α) : Prop := ∀ a, answer ≠ .value a

namespace Polled
variable {wrap : TestError → TestError} {is : List ι} {asked : List (ι × Answer Bool)} {outcome : Answer (List ι)}

theorem upTo (h : Polled wrap is asked outcome) : UpTo Unheard is asked := by
  induction h with
  | nil => exact .nil
  | supports _ ih => exact .pass (fun unheard => unheard true rfl) ih
  | declines _ ih => exact .pass (fun unheard => unheard false rfl) ih
  | failed failure => exact .stop fun a => Answer.failed_ne_value

theorem nobody_iff (h : Polled wrap is asked outcome) : outcome = .value [] ↔ asked = is.map (·, .value false) := by
  induction h with
  | nil => simp
  | @supports _ _ outcome => rcases Answer.cases outcome with ⟨found, rfl⟩ | ⟨failure, rfl⟩ <;> simp
  | declines _ ih => simp [ih]
  | failed failure => simp

theorem sole_iff (h : Polled wrap is asked outcome) (i : ι) : outcome = .value [i] ↔ Sole is asked i := by
  induction h with
  | nil => simp [not_sole_nil]
  | @supports _ _ outcome j polled _ =>
    rw [sole_cons, ← polled.nobody_iff]
    rcases Answer.cases outcome with ⟨found, rfl⟩ | ⟨failure, rfl⟩ <;> simp
  | declines _ ih => simp [sole_cons, ih]
  | failed failure => simp [sole_cons]

/-- Asking fails as the last of those asked does, but for the change of its error. -/
theorem failed_of (h : Polled wrap is asked outcome) {failure : Failure} (faulty : outcome = .failed failure) :
    ∃ first : Failure, failure = first.map (Fault.relabel wrap) ∧ ∃ a ∈ asked, a.2 = .failed first := by
  induction h with
  | nil => exact absurd faulty Answer.value_ne_failed
  | supports _ ih =>
    obtain ⟨first, same, a, member, answer⟩ := ih (Answer.map_eq_failed.mp faulty)
    exact ⟨first, same, a, List.mem_cons_of_mem _ member, answer⟩
  | declines _ ih =>
    obtain ⟨first, same, a, member, answer⟩ := ih faulty
    exact ⟨first, same, a, List.mem_cons_of_mem _ member, answer⟩
  | failed first => exact ⟨first, (Answer.failed_inj.mp faulty).symm, _, List.mem_cons_self, rfl⟩

end Polled

abbrev Named (σ ν : Type) := String × ParameterResolver σ ν

def resolversOf (es : List (Extension σ ν)) : List (Named σ ν) :=
  es.filterMap fun e => e.parameterResolver.map (e.name, ·)

def askResolver (run : Runner σ ν) (p : ParameterContext)
    (question : ParameterResolver σ ν → ParameterContext → Code σ ν α) (r : Named σ ν) : Attempt σ ν α :=
  Engine.step (.resolver r.1 p.parameter.name) (call run (question r.2 p))

/-- What is asked about one parameter: whether resolvers support it, and the value of at most one resolver. -/
structure Round (σ ν : Type) where
  supports : List (Named σ ν × Answer Bool)
  value : Option (Named σ ν × Answer Value)

namespace Round

/-- The round is held between the two worlds: resolvers are asked in steps of their own, and nothing else is done. -/
def Held (run : Runner σ ν) (env : Environment σ ν) (executable : String) (w : World σ ν)
    (asked : Parameter × Round σ ν) (w' : World σ ν) : Prop :=
  ∃ between,
    Successive (Puts env (askResolver run ⟨asked.1, executable⟩ (·.supports))) w asked.2.supports between ∧
    Successive (Puts env (askResolver run ⟨asked.1, executable⟩ (·.resolve))) between asked.2.value.toList w'

/-- The one resolver that supports the parameter has given a value that the parameter accepts. -/
def Gives (rs : List (Named σ ν)) (p : Parameter) (round : Round σ ν) (v : Value) : Prop :=
  ∃ r, Sole rs round.supports r ∧ round.value = some (r, .value v) ∧ p.type.accepts v = true

/-- The resolvers are asked in their order up to the first that fails, and a resolver is asked for the value if and only
if it is the one that supports the parameter. -/
structure Orderly (rs : List (Named σ ν)) (round : Round σ ν) : Prop where
  supports : UpTo Unheard rs round.supports
  value : ∀ r, (∃ answer, round.value = some (r, answer)) ↔ Sole rs round.supports r

def Meets (round : Round σ ν) (failure : Failure) : Prop :=
  (∃ asked ∈ round.supports, asked.2 = .failed failure) ∨ ∃ r, round.value = some (r, .failed failure)

theorem not_gives_none {rs : List (Named σ ν)} {p : Parameter} {asked : List (Named σ ν × Answer Bool)} (v : Value) :
    ¬ Gives rs p ⟨asked, none⟩ v := by
  rintro ⟨_, _, ⟨⟩, _⟩

end Round

/-- An error is one of the resolution or of the configuration, whatever was raised; anything else that goes wrong has
gone wrong in the code of a resolver. -/
def Blamed (met : Failure → Prop) : Failure → Prop
  | .ok (.error e) => e.kind = .resolution ∨ e.kind = .configuration
  | failure => met failure

theorem ParameterContext.wrap_kind (p : ParameterContext) (e : TestError) :
    (p.wrap e).kind = .resolution ∨ (p.wrap e).kind = .configuration := by
  unfold wrap
  split
  · exact .inl ‹_›
  · exact .inr ‹_›
  · exact .inl rfl

namespace Blamed
variable {met met' : Failure → Prop}

/-- What a resolver has failed with is passed on with its error wrapped. -/
theorem wrapped (p : ParameterContext) {first : Failure} (h : met first) :
    Blamed met (first.map (Fault.relabel p.wrap)) := by
  rcases first with _ | _ | _
  · exact h
  · exact p.wrap_kind _
  · exact h

theorem mono {failure : Failure} (h : Blamed met failure) (more : met failure → met' failure) :
    Blamed met' failure := by
  rcases failure with _ | _ | _
  · exact more h
  · exact h
  · exact more h

end Blamed

structure Round.Settles (rs : List (Named σ ν)) (p : Parameter) (round : Round σ ν) (outcome : Answer Value) :
    Prop where
  orderly : round.Orderly rs
  gives : ∀ v, outcome = .value v ↔ round.Gives rs p v
  blames : ∀ failure, outcome = .failed failure → Blamed round.Meets failure

namespace Polled
variable {p : Parameter} {executable : String} {rs : List (Named σ ν)} {asked : List (Named σ ν × Answer Bool)}
  {polled : Answer (List (Named σ ν))} {failure : Failure}

/-- Where no resolver supports the parameter alone, none is asked for its value. -/
theorem settles_none (poll : Polled (ParameterContext.wrap ⟨p, executable⟩) rs asked polled)
    (nobody : ∀ r, polled ≠ .value [r]) (blamed : Blamed (Round.Meets ⟨asked, none⟩) failure) :
    Round.Settles rs p ⟨asked, none⟩ (.failed failure) := by
  refine ⟨⟨poll.upTo, fun r => ⟨nofun, fun sole => absurd ((poll.sole_iff r).mpr sole) (nobody r)⟩⟩, fun v => ?_, ?_⟩
  · simp [Round.not_gives_none]
  · intro failure' same
    rwa [← Answer.failed_inj.mp same]

/-- A resolver that alone supports the parameter is asked for its value. -/
theorem settles_some {r : Named σ ν} (poll : Polled (ParameterContext.wrap ⟨p, executable⟩) rs asked (.value [r]))
    {answer : Answer Value} {outcome : Answer Value}
    (accepted : ∀ v, outcome = .value v ↔ answer = .value v ∧ p.type.accepts v = true)
    (blames : ∀ failure, outcome = .failed failure → Blamed (Round.Meets ⟨asked, some (r, answer)⟩) failure) :
    Round.Settles rs p ⟨asked, some (r, answer)⟩ outcome := by
  have sole := (poll.sole_iff r).mp rfl
  refine ⟨⟨poll.upTo, fun r' => ⟨?_, fun sole' => ?_⟩⟩, fun v => (accepted v).trans ⟨?_, ?_⟩, blames⟩
  · rintro ⟨_, ⟨⟩⟩
    exact sole
  · cases (poll.sole_iff r').mpr sole'
    exact ⟨answer, rfl⟩
  · rintro ⟨rfl, accepts⟩
    exact ⟨r, sole, rfl, accepts⟩
  · rintro ⟨_, _, ⟨⟩, accepts⟩
    exact ⟨rfl, accepts⟩

end Polled

section
variable (run : Runner σ ν) (env : Environment σ ν)

theorem supporting_some (p : ParameterContext) {e : Extension σ ν} {es : List (Extension σ ν)}
    {r : ParameterResolver σ ν} (resolver : e.parameterResolver = some r) :
    supporting run p (e :: es) = do
      let here ← relabel p.wrap (askResolver run p (·.supports) (e.name, r))
      let others ← supporting run p es
      return if here then (e.name, r) :: others else others := by
  rw [supporting, resolver]
  rfl

theorem supporting_told (p : ParameterContext) (es : List (Extension σ ν)) (w : World σ ν) :
    ∃ asked outcome w', (supporting run p es).run.goes env w = (outcome, w') ∧
      Successive (Puts env (askResolver run p (·.supports))) w asked w' ∧
      Polled p.wrap (resolversOf es) asked outcome := by
  induction es generalizing w with
  | nil => exact ⟨[], _, _, rfl, .nil, .nil⟩
  | cons e es ih =>
    cases resolver : e.parameterResolver with
    | none =>
      have passed : resolversOf (e :: es) = resolversOf es := by simp [resolversOf, resolver]
      rw [supporting, resolver, passed]
      exact ih w
    | some r =>
      have here : resolversOf (e :: es) = (e.name, r) :: resolversOf es := by simp [resolversOf, resolver]
      rw [supporting_some run p resolver, here]
      rcases puts : (askResolver run p (·.supports) (e.name, r)).run.goes env w with ⟨answer, between⟩
      have asks : Puts env (askResolver run p (·.supports)) w ((e.name, r), answer) between := puts
      rcases Answer.cases answer with ⟨supports, rfl⟩ | ⟨failure, rfl⟩
      · obtain ⟨asked, outcome, w', goes, rest, polled⟩ := ih between
        rw [Engine.goes_bind_value (Engine.goes_relabel_value p.wrap puts), Engine.goes_bind_pure goes]
        cases supports with
        | false =>
          refine ⟨_, outcome, w', ?_, .cons asks rest, .declines polled⟩
          rcases Answer.cases outcome with ⟨found, rfl⟩ | ⟨failure, rfl⟩ <;> simp
        | true => exact ⟨_, _, w', rfl, .cons asks rest, .supports polled⟩
      · rw [Engine.goes_bind_failed (Engine.goes_relabel_failed p.wrap puts)]
        exact ⟨_, _, _, rfl, .single asks, .failed failure⟩

/-- What is asked about one parameter, and what it is given. -/
theorem resolveParameter_told (p : Parameter) (executable : String) (es : List (Extension σ ν)) (w : World σ ν) :
    ∃ (round : Round σ ν) (outcome : Answer Value) (w' : World σ ν),
      (resolveParameter run ⟨p, executable⟩ es).run.goes env w = (outcome, w') ∧
      Round.Held run env executable w (p, round) w' ∧ round.Settles (resolversOf es) p outcome := by
  obtain ⟨asked, polled, between, goes, first, poll⟩ := supporting_told run env ⟨p, executable⟩ es w
  have held : Round.Held run env executable w (p, ⟨asked, none⟩) between := ⟨between, first, .nil⟩
  rw [resolveParameter]
  rcases Answer.cases polled with ⟨found, rfl⟩ | ⟨failure, rfl⟩
  · rw [Engine.goes_bind_value goes]
    rcases found with _ | ⟨r, _ | ⟨r', rs⟩⟩
    · have nobody (r : Named σ ν) : Answer.value [] ≠ .value [r] := by simp
      exact ⟨_, .failed (.ok (.error _)), _, rfl, held, poll.settles_none nobody (.inl rfl)⟩
    · show ∃ _ _ _, (relabel _ (askResolver run ⟨p, executable⟩ (·.resolve) r) >>= _).run.goes env between = _ ∧ _
      rcases puts : (askResolver run ⟨p, executable⟩ (·.resolve) r).run.goes env between with ⟨answer, w'⟩
      have held : Round.Held run env executable w (p, ⟨asked, some (r, answer)⟩) w' := ⟨between, first, .single puts⟩
      rcases Answer.cases answer with ⟨value, rfl⟩ | ⟨failure, rfl⟩
      · rw [Engine.goes_bind_value (Engine.goes_relabel_value _ puts)]
        have accepted : ParameterContext.rejection? ⟨p, executable⟩ r.1 value = none ↔ p.type.accepts value = true :=
          ParameterContext.rejection?_eq_none
        cases rejection : ParameterContext.rejection? ⟨p, executable⟩ r.1 value with
        | none =>
          refine ⟨_, .value value, _, rfl, held, poll.settles_some (fun v => ?_) ?_⟩
          · rw [Answer.value_inj]
            refine ⟨?_, And.left⟩
            rintro rfl
            exact ⟨rfl, accepted.mp rejection⟩
          · exact fun _ same => absurd same Answer.value_ne_failed
        | some e =>
          refine ⟨_, .failed (.ok (.error e)), _, rfl, held, poll.settles_some (fun v => ?_) ?_⟩
          · refine ⟨(absurd · Answer.failed_ne_value), ?_⟩
            rintro ⟨same, accepts⟩
            rw [Answer.value_inj.mp same] at accepted rejection
            rw [accepted.mpr accepts] at rejection
            contradiction
          · rintro failure same
            rw [← Answer.failed_inj.mp same]
            exact .inl (ParameterContext.rejection?_kind rejection)
      · rw [Engine.goes_bind_failed (Engine.goes_relabel_failed _ puts)]
        refine ⟨_, _, _, rfl, held, poll.settles_some (fun v => by simp) fun failure' same => ?_⟩
        rw [← Answer.failed_inj.mp same]
        exact .wrapped _ (.inr ⟨r, rfl⟩)
    · have nobody (r'' : Named σ ν) : Answer.value (r :: r' :: rs) ≠ .value [r''] := by simp
      exact ⟨_, .failed (.ok (.error _)), _, rfl, held, poll.settles_none nobody (.inr rfl)⟩
  · rw [Engine.goes_bind_failed goes]
    obtain ⟨failure, rfl, met⟩ := poll.failed_of rfl
    exact ⟨_, _, _, rfl, held, poll.settles_none (fun r => Answer.failed_ne_value) (.wrapped _ (.inl met))⟩

/-- What is asked about parameters one after another, and what comes of it. -/
structure Resolution (rs : List (Named σ ν)) (ps : List Parameter) (rounds : List (Parameter × Round σ ν))
    (outcome : Answer (List Value)) : Prop where
  /-- Nothing is asked behind the first parameter that is not given a value. -/
  upTo : UpTo (fun p round => ∀ v, ¬ Round.Gives rs p round v) ps rounds
  orderly : ∀ asked ∈ rounds, asked.2.Orderly rs
  values : ∀ vs, outcome = .value vs ↔
    rounds.map (·.1) = ps ∧ List.Forall₂ (fun asked v => asked.2.Gives rs asked.1 v) rounds vs
  blames : ∀ failure, outcome = .failed failure → Blamed (fun met => ∃ asked ∈ rounds, asked.2.Meets met) failure

namespace Resolution
variable {rs : List (Named σ ν)} {p : Parameter} {ps : List Parameter} {round : Round σ ν}
  {rounds : List (Parameter × Round σ ν)} {outcome : Answer (List Value)}

/-- A parameter that is given nothing ends the resolution. -/
theorem stop {failure : Failure} (settles : round.Settles rs p (.failed failure)) :
    Resolution rs (p :: ps) [(p, round)] (.failed failure) := by
  have nothing (v : Value) : ¬ round.Gives rs p v := fun gives => Answer.failed_ne_value ((settles.gives v).mpr gives)
  refine ⟨.stop nothing, by simpa using settles.orderly, fun vs => ?_, fun failure' same => ?_⟩
  · refine ⟨(absurd · Answer.failed_ne_value), ?_⟩
    rintro ⟨_, given⟩
    cases given with
    | cons gives _ => exact absurd gives (nothing _)
  · have blamed := settles.blames failure' (by rw [Answer.failed_inj.mp same])
    exact blamed.mono fun met => ⟨_, List.mem_cons_self, met⟩

theorem pass {v : Value} (settles : round.Settles rs p (.value v)) (rest : Resolution rs ps rounds outcome) :
    Resolution rs (p :: ps) ((p, round) :: rounds) (.map (v :: ·) outcome) := by
  have gives : round.Gives rs p v := (settles.gives v).mp rfl
  refine ⟨.pass (fun none => none v gives) rest.upTo, ?_, fun vs => ?_, fun failure faulty => ?_⟩
  · simpa [settles.orderly] using rest.orderly
  · rw [Answer.map_eq_value]
    constructor
    · rintro ⟨vs, rfl, rfl⟩
      obtain ⟨order, each⟩ := (rest.values vs).mp rfl
      exact ⟨by rw [List.map_cons, order], .cons gives each⟩
    · rintro ⟨order, each⟩
      cases each with
      | @cons _ v' _ vs first each =>
        obtain rfl : v = v' := Answer.value_inj.mp ((settles.gives v').mpr first)
        exact ⟨vs, (rest.values vs).mpr ⟨(List.cons.inj order).2, each⟩, rfl⟩
  · have blamed := rest.blames failure (Answer.map_eq_failed.mp faulty)
    exact blamed.mono fun ⟨asked, member, met⟩ => ⟨asked, List.mem_cons_of_mem _ member, met⟩

end Resolution

theorem resolveEach_told (executable : String) (es : List (Extension σ ν)) (ps : List Parameter) (w : World σ ν) :
    ∃ rounds outcome w', (resolveEach run executable es ps).run.goes env w = (outcome, w') ∧
      Successive (Round.Held run env executable) w rounds w' ∧ Resolution (resolversOf es) ps rounds outcome := by
  induction ps generalizing w with
  | nil =>
    refine ⟨[], Answer.value [], w, rfl, .nil, .nil, by simp, by simp [eq_comm], ?_⟩
    exact fun _ same => absurd same Answer.value_ne_failed
  | cons p ps ih =>
    obtain ⟨round, outcome, between, goes, held, settles⟩ := resolveParameter_told run env p executable es w
    rw [resolveEach]
    rcases Answer.cases outcome with ⟨v, rfl⟩ | ⟨failure, rfl⟩
    · obtain ⟨rounds, outcome, w', more, rest, resolution⟩ := ih between
      rw [Engine.goes_bind_value goes, Engine.goes_bind_pure more]
      exact ⟨_, _, w', rfl, .cons held rest, .pass settles resolution⟩
    · rw [Engine.goes_bind_failed goes]
      exact ⟨_, _, _, rfl, .single held, .stop settles⟩

end

/-- Parameters are resolved in their order. The resolvers of the node are asked one after another whether they support
the parameter, and the one that alone does is asked once for its value; nothing else is done, and nothing is asked
behind the first parameter that is given no value it accepts. There are values if and only if every parameter is given
one, and then they are those. Null is refused by the types of booleans and numbers and by no other. -/
theorem parameters_resolved (run : Runner σ ν) (env : Environment σ ν) (w : World σ ν) (executable : String)
    (ps : List Parameter) :
    (∃ rounds outcome w',
      (resolveWith run executable ps).run.goes env w = (outcome, w') ∧
      Successive (Round.Held run env executable) w rounds w' ∧
      Resolution (resolversOf (w.extensions .parameterResolver)) ps rounds outcome) ∧
    ∀ type : ParamType, type.accepts .null = false ↔ type = .bool ∨ type = .int ∨ type = .float := by
  refine ⟨?_, fun type => by cases type <;> simp [ParamType.accepts_null, ParamType.isPrimitive]⟩
  rw [resolveWith, ExceptT.run_bind_lift, Engine.goes_bind]
  exact resolveEach_told run env executable _ ps w

end TestEngine

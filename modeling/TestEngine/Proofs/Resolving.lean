import TestEngine.Builtin
import TestEngine.Proofs.Stepping

/-! Parameters that are given the values of a row. Where no other resolver supports them, the resolver of the row
settles each by its position, and what comes of that depends on the row alone. -/
namespace TestEngine
variable {σ ν α β : Type}

open Execution

def Parameter.Positional (ps : List Parameter) : Prop := ps.map (·.index) = List.range ps.length

/-- A row has a value for each of the parameters, in order, that the type of the parameter accepts. There may be more
values in it. -/
def Fits (ps : List Parameter) (row : List Argument) : Prop :=
  List.Forall₂ (fun p a => p.type.accepts a.value) ps (row.take ps.length)

inductive GivenBy (ps : List Parameter) (row : List Argument) : Except Fault (List Value) → Prop where
  | fits : Fits ps row → GivenBy ps row (.ok (Argument.values (row.take ps.length)))
  | unfit : ¬ Fits ps row → e.kind = .resolution → GivenBy ps row (.error (.error e))

namespace GivenBy
variable {p : Parameter} {ps : List Parameter} {a : Argument} {row : List Argument}

/-- Without a value for the first parameter nothing is given. -/
theorem missing (resolution : e.kind = .resolution) : GivenBy (p :: ps) [] (.error (.error e)) :=
  .unfit nofun resolution

theorem rejected (refused : p.type.accepts a.value = false) (resolution : e.kind = .resolution) :
    GivenBy (p :: ps) (a :: row) (.error (.error e)) := by
  refine .unfit (fun fits => ?_) resolution
  cases fits with
  | cons accepted _ => simp [refused] at accepted

theorem first (accepted : p.type.accepts a.value) {rest : Except Fault (List Value)} (h : GivenBy ps row rest) :
    GivenBy (p :: ps) (a :: row) (rest.map (a.value :: ·)) := by
  cases h with
  | fits fits => exact .fits (.cons accepted fits)
  | unfit not resolution =>
    refine .unfit (fun fits => ?_) resolution
    cases fits with
    | cons _ fits => exact not fits

end GivenBy

theorem ParamType.accepts_null (type : ParamType) : type.accepts .null = !type.isPrimitive := by
  cases type <;> rfl

/-- A value is rejected if and only if the type does not accept it. -/
theorem ParameterContext.rejection?_eq_none {p : ParameterContext} {resolver : String} {v : Value} :
    p.rejection? resolver v = none ↔ p.parameter.type.accepts v := by
  unfold rejection?
  cases v with
  | null => cases primitive : p.parameter.type.isPrimitive <;> simp [Value.isNull, ParamType.accepts_null, primitive]
  | _ => simp [Value.isNull]

theorem ParameterContext.rejection?_kind {p : ParameterContext} {resolver : String} {v : Value}
    (h : p.rejection? resolver v = some e) : e.kind = .resolution := by
  unfold rejection? at h
  dsimp only at h
  split at h
  · cases h
    rfl
  · split at h
    · cases h
      rfl
    · contradiction

abbrev EndsIn (timed : Prop) (env : Environment σ ν) (sites : List (Site σ ν)) (m : Engine σ ν α) (a : α) : Prop :=
  Performs timed env sites m fun b _ => b = a

/-- The resolver does not support the parameter at the end of the path, whatever the world is. -/
def ParameterResolver.Declines (r : ParameterResolver σ ν) (env : Environment σ ν) (path : List (Place σ ν))
    (p : ParameterContext) : Prop :=
  ∀ outcome told, Enacts env path (perform (r.supports p)).run outcome told → outcome = .ok false

section
variable {timed : Prop} {env : Environment σ ν} {sites : List (Site σ ν)} {path : List (Place σ ν)}

theorem Quiet.endsIn {m : Engine σ ν α} (h : Quiet m) (always : ∀ b told, Enacts env path m b told → b = a) :
    EndsIn timed env (path.map (·.toSite)) m a :=
  (Goes.enacts (h timed env (path.map (·.toSite)))).calm_mono fun b _ ⟨_, enacts⟩ => always b _ enacts

namespace EndsIn

theorem step {code : Attempt σ ν α} {o : Except Fault α} (h : EndsIn timed env sites code.run o) (s : Step)
    (unwatched : s.isWatcher = false) : EndsIn timed env sites (Engine.step s code).run o :=
  (Performs.step h s unwatched).calm_mono fun _ _ ⟨_, same, _⟩ => same

/-- There is nothing to relabel where no error is raised. -/
theorem relabel {code : Attempt σ ν α} (h : EndsIn timed env sites code.run (.ok a)) (change : TestError → TestError) :
    EndsIn timed env sites (Execution.relabel change code).run (.ok a) := by
  refine Goes.calm_bind h ?_
  rintro _ _ rfl
  exact .pure rfl

theorem done (value : Except TestError α) :
    EndsIn timed env sites (perform (.done value)).run (value.mapError .error) := by
  cases value <;> exact .pure rfl

end EndsIn

section
variable {p : ParameterContext} {es before after : List (Extension σ ν)}

/-- Resolvers that do not support a parameter are passed over. -/
theorem endsIn_supporting_behind {found : List (String × ParameterResolver σ ν)}
    (declines : ∀ e ∈ before, ∀ r, e.parameterResolver = some r → r.Declines env path p)
    (h : EndsIn timed env (path.map (·.toSite)) (supporting run p es).run (.ok found)) :
    EndsIn timed env (path.map (·.toSite)) (supporting run p (before ++ es)).run (.ok found) := by
  induction before with
  | nil => exact h
  | cons e before ih =>
    have others := ih fun e member => declines e (by simp [member])
    rw [List.cons_append, supporting]
    split
    · exact others
    · rename_i r same
      have here : EndsIn timed env (path.map (·.toSite)) (perform (r.supports p)).run (.ok false) :=
        (quiet_perform _).endsIn (declines e (by simp) r same)
      refine Goes.calm_attempt_bind ((here.step (.resolver e.name p.parameter.name) rfl).relabel _) ?_ ?_
      · rintro _ _ ⟨⟩
        refine Goes.calm_attempt_bind others ?_ ?_
        · rintro _ _ ⟨⟩
          exact .pure rfl
        · rintro _ _ ⟨⟩
      · rintro _ _ ⟨⟩

/-- The resolver of a row is found for a parameter that there is a value for. -/
theorem endsIn_supporting {own : Extension σ ν} {r : ParameterResolver σ ν} {here : Bool}
    (same : own.parameterResolver = some r) (supports : r.supports p = .done (.ok here))
    (declines : ∀ e ∈ before ++ after, ∀ r, e.parameterResolver = some r → r.Declines env path p) :
    EndsIn timed env (path.map (·.toSite)) (supporting run p (before ++ own :: after)).run
      (.ok (if here then [(own.name, r)] else [])) := by
  refine endsIn_supporting_behind (fun e member => declines e (List.mem_append_left _ member)) ?_
  have others : EndsIn timed env (path.map (·.toSite)) (supporting run p after).run (.ok []) := by
    have none : EndsIn timed env (path.map (·.toSite)) (supporting run p []).run (.ok []) := .pure rfl
    simpa using endsIn_supporting_behind (fun e member => declines e (List.mem_append_right _ member)) none
  have asked : EndsIn timed env (path.map (·.toSite)) (perform (r.supports p)).run (.ok here) := by
    rw [supports]
    exact .done _
  simp only [supporting, same]
  refine Goes.calm_attempt_bind ((asked.step (.resolver own.name p.parameter.name) rfl).relabel _) ?_ ?_
  · rintro _ _ ⟨⟩
    refine Goes.calm_attempt_bind others ?_ ?_
    · rintro _ _ ⟨⟩
      exact .pure rfl
    · rintro _ _ ⟨⟩
  · rintro _ _ ⟨⟩

/-- What comes of a parameter that is given the value at its place in a row. -/
inductive GivenAt (p : Parameter) (row : List Argument) : Except Fault Value → Prop where
  | given : row[p.index]? = some a → p.type.accepts a.value → GivenAt p row (.ok a.value)
  | rejected : row[p.index]? = some a → p.type.accepts a.value = false → e.kind = .resolution →
      GivenAt p row (.error (.error e))
  | missing : row.length ≤ p.index → e.kind = .resolution → GivenAt p row (.error (.error e))

section
variable {name : String} {row : List Argument}

theorem performs_resolveParameter {p : Parameter}
    (declines : ∀ e ∈ before ++ after, ∀ r, e.parameterResolver = some r → r.Declines env path ⟨p, name⟩) :
    Performs timed env (path.map (·.toSite))
      (resolveParameter run ⟨p, name⟩ (before ++ Extension.argumentsResolver name row :: after)).run
      fun outcome _ => GivenAt p row outcome := by
  refine Goes.calm_attempt_bind (endsIn_supporting rfl rfl declines) ?_ ?_
  · rintro _ _ ⟨⟩
    cases value : row[p.index]? with
    | none =>
      have short : row.length ≤ p.index := List.getElem?_eq_none_iff.mp value
      simp only [beq_self_eq_true, Bool.true_and, decide_eq_true_eq, Nat.not_lt.mpr short, if_false]
      exact .pure (.missing short rfl)
    | some a =>
      obtain ⟨enough, -⟩ := List.getElem?_eq_some_iff.mp value
      simp only [beq_self_eq_true, Bool.true_and, decide_eq_true_eq, enough, if_true, value]
      have resolved : EndsIn timed env (path.map (·.toSite)) (perform (.done (.ok a.value))).run (.ok a.value) :=
        .done _
      refine Goes.calm_attempt_bind ((resolved.step (.resolver _ p.name) rfl).relabel _) ?_ ?_
      · rintro _ _ ⟨⟩
        split
        · rename_i e rejection
          have refused : p.type.accepts a.value = false := by
            rw [Bool.eq_false_iff]
            intro accepted
            rw [ParameterContext.rejection?_eq_none.mpr accepted] at rejection
            contradiction
          exact .pure (.rejected value refused (ParameterContext.rejection?_kind rejection))
        · rename_i none
          exact .pure (.given value (ParameterContext.rejection?_eq_none.mp none))
      · rintro _ _ ⟨⟩
  · rintro _ _ ⟨⟩

/-- Parameters numbered one after the other are given the values of the row from there on. -/
theorem performs_resolveEach {ps : List Parameter} {i : Nat} (numbered : ps.map (·.index) = List.range' i ps.length)
    (declines : ∀ e ∈ before ++ after, ∀ r, e.parameterResolver = some r → ∀ p ∈ ps,
      r.Declines env path ⟨p, name⟩) :
    Performs timed env (path.map (·.toSite))
      (resolveEach run name (before ++ Extension.argumentsResolver name row :: after) ps).run
      fun outcome _ => GivenBy ps (row.drop i) outcome := by
  induction ps generalizing i with
  | nil => exact .pure (.fits .nil)
  | cons p ps ih =>
    obtain ⟨rfl, numbered⟩ : p.index = i ∧ ps.map (·.index) = List.range' (i + 1) ps.length := by
      simpa [List.range'_succ] using numbered
    refine Goes.calm_attempt_bind
      (performs_resolveParameter fun e member r same => declines e member r same p (by simp)) ?_ ?_
    · intro v _ given
      cases given with
      | given value accepted =>
        obtain ⟨enough, here⟩ := List.getElem?_eq_some_iff.mp value
        rw [List.drop_eq_getElem_cons enough, here]
        have rest := ih numbered fun e member r same p within => declines e member r same p (by simp [within])
        refine Goes.calm_attempt_bind rest ?_ ?_
        · intro vs _ rest
          exact .pure (rest.first accepted)
        · exact fun fault _ rest => rest.first accepted
    · intro fault _ given
      cases given with
      | rejected value refused resolution =>
        obtain ⟨enough, here⟩ := List.getElem?_eq_some_iff.mp value
        rw [List.drop_eq_getElem_cons enough, here]
        exact .rejected refused resolution
      | missing short resolution =>
        rw [List.drop_eq_nil_of_le short]
        exact .missing resolution

/-- The resolver of the row is in the chain of the node, and no other resolver there supports one of the parameters. -/
def Seconded (env : Environment σ ν) (path : List (Place σ ν)) (place : Place σ ν) (name : String)
    (ps : List Parameter) (row : List Argument) : Prop :=
  ∃ before after, place.registry.extensions .parameterResolver =
      before ++ Extension.argumentsResolver name row :: after ∧
    ∀ e ∈ before ++ after, ∀ r, e.parameterResolver = some r → ∀ p ∈ ps, r.Declines env (place :: path) ⟨p, name⟩

theorem performs_resolveParameters {place : Place σ ν} {ps : List Parameter} (positional : Parameter.Positional ps)
    (alone : Seconded env path place name ps row) :
    Performs timed env ((place :: path).map (·.toSite)) (resolveParameters name ps).run
      fun outcome _ => GivenBy ps row outcome := by
  obtain ⟨before, after, chain, declines⟩ := alone
  refine Goes.calm_lift_bind (Goes.extensions _) ?_
  rintro es _ ⟨rfl, rfl⟩
  have registered : ((((place :: path).map (·.toSite)).head?.map
      (·.registry.extensions .parameterResolver)).getD []) = _ := chain
  rw [registered]
  have numbered : ps.map (·.index) = List.range' 0 ps.length := by rw [← List.range_eq_range']; exact positional
  exact performs_resolveEach numbered declines

end

/-- Where no instance is given up, code that uses one is run as it is, or waits for ever. -/
theorem goes_occupying {T : Telling ν δ} {code : Attempt σ ν α} {S : Except Fault α → List δ → Prop}
    (untimed : ¬ T.timed) (inst : TestInstance) (h : Goes T env sites code.run S Calm) :
    Goes T env sites (Engine.occupying inst code).run S Calm := by
  have free : Goes T env sites (Engine.available inst) (fun free xs => xs = [] ∧ free = true) Calm := by
    intro w _ fresh
    have none : w.abandoned = [] := fresh.resolve_left untimed
    refine ⟨[], ?_⟩
    have goes : (Engine.available inst).goes env w =
        if !w.inUse.contains inst.number then (.ok true, w)
        else if w.abandoned.contains inst.number then (.ok false, w)
        else (.error .blocked, w) := by
      unfold Engine.available
      rw [Engine.goes_bind]
      show (ite _ _ _ : Engine σ ν Bool).goes env w = _
      split
      · rfl
      · split <;> rfl
    rw [goes, none]
    by_cases used : inst.number ∈ w.inUse
    · simpa [used] using ⟨Telling.Adds.refl w, (nofun : Calm .blocked ([] : List δ))⟩
    · simpa [used, Ends] using Telling.Adds.refl w
  refine Goes.calm_bind free ?_
  rintro _ _ ⟨rfl, rfl⟩
  refine Goes.calm_bind (Goes.modify _ (fun _ => rfl) (fun _ => rfl) fun _ => rfl) ?_
  rintro _ _ rfl
  refine Goes.calm_bind h fun outcome xs s => ?_
  refine Goes.calm_bind (Goes.modify _ (fun _ => rfl) (fun _ => rfl) fun _ => rfl) ?_
  rintro _ _ rfl
  exact .pure (by simpa using s)

/-- A method is called with the first values of a row. It is called once, behind the resolution of its parameters, or
not at all if the row does not fit them. -/
inductive CalledWith (env : Environment σ ν) (path : List (Place σ ν)) (m : Method σ ν Unit) (row : List Argument)
    (inst : Option TestInstance) : Except Fault Unit → List (Entry ν) → Prop where
  | called : Fits m.parameters row → values = Argument.values (row.take m.parameters.length) →
      Enacts env path (resolveParameters m.name m.parameters).run (.ok values) asked →
      Enacts env path (perform (m.body ⟨inst, values⟩)).run outcome ran →
      CalledWith env path m row inst outcome (asked ++ ran)
  | unresolved : ¬ Fits m.parameters row → e.kind = .resolution →
      Enacts env path (resolveParameters m.name m.parameters).run (.error (.error e)) told →
      CalledWith env path m row inst (.error (.error e)) told

theorem performs_invoke {place : Place σ ν} {m : Method σ ν Unit} {row : List Argument} (untimed : ¬ timed)
    (positional : Parameter.Positional m.parameters) (alone : Seconded env path place m.name m.parameters row)
    (inst : Option TestInstance) :
    Performs timed env ((place :: path).map (·.toSite)) (invoke m inst).run fun outcome acts =>
      CalledWith env (place :: path) m row inst outcome (Act.entriesAll place.descriptor.id acts) := by
  refine Goes.calm_attempt_bind (Goes.enacts (performs_resolveParameters positional alone)) ?_ ?_
  · rintro values acts ⟨given, asked⟩
    cases given with
    | fits fits =>
      generalize same : Argument.values (row.take m.parameters.length) = values at asked ⊢
      have performed := Goes.enacts
        (quiet_perform (m.body ⟨inst, values⟩) timed env ((place :: path).map (·.toSite)))
      have called {outcome : Except Fault Unit} {more : List (Act ν)}
          (ran : Enacts env (place :: path) (perform (m.body ⟨inst, values⟩)).run outcome
            (Act.entriesAll place.descriptor.id more)) :
          CalledWith env (place :: path) m row inst outcome (Act.entriesAll place.descriptor.id (acts ++ more)) := by
        rw [Act.entriesAll_append]
        exact .called fits same.symm asked ran
      cases inst with
      | none => exact performed.calm_mono fun _ _ ⟨_, ran⟩ => called ran
      | some inst => exact (goes_occupying untimed inst performed).calm_mono fun _ _ ⟨_, ran⟩ => called ran
  · rintro fault acts ⟨given, asked⟩
    cases given with
    | unfit not resolution => exact .unresolved not resolution asked

theorem CalledWith.resolution {m : Method σ ν Unit} {row : List Argument} {inst : Option TestInstance}
    {outcome : Except Fault Unit} {told : List (Entry ν)} (h : CalledWith env path m row inst outcome told)
    (unfit : ¬ Fits m.parameters row) : ∃ e, outcome = .error (.error e) ∧ e.kind = .resolution := by
  cases h with
  | called fits => exact absurd fits unfit
  | unresolved _ resolution _ => exact ⟨_, rfl, resolution⟩

/-- The body of a test that is given the values of a row. A static method is called without an instance. -/
def RowBody (env : Environment σ ν) (path : List (Place σ ν)) (place : Place σ ν) (m : Method σ ν Unit)
    (row : List Argument) (deeds : List (Deed σ ν)) : Prop :=
  ∃ inst outcome inside, deeds = [.act (.step (.body m.name (inst.map (·.number))) inside (faultOf outcome))] ∧
    (m.isStatic → inst = none) ∧
    CalledWith env (place :: path) m row inst outcome (Act.entriesAll place.descriptor.id inside)

theorem performs_invokeTest_given {place : Place σ ν} {m : Method σ ν Unit} {row : List Argument} (untimed : ¬ timed)
    (default : env.settings.defaultTimeout = none) (positional : Parameter.Positional m.parameters)
    (alone : Seconded env path place m.name m.parameters row) (inst : Option TestInstance) :
    Performs timed env ((place :: path).map (·.toSite)) (invokeTest m none inst).run fun outcome acts =>
      ∃ inst inside, (m.isStatic → inst = none) ∧
        acts = [.step (.body m.name (inst.map (·.number))) inside (faultOf outcome)] ∧
        CalledWith env (place :: path) m row inst outcome (Act.entriesAll place.descriptor.id inside) := by
  refine Goes.calm_bind Goes.settings ?_
  rintro settings _ ⟨rfl, rfl⟩
  have unlimited : ((none : Option Duration).orElse fun _ => env.settings.defaultTimeout) = none := default
  simp only [unlimited]
  refine ((performs_invoke untimed positional alone _).step _ rfl).calm_mono ?_
  rintro outcome _ ⟨inside, called, rfl⟩
  exact ⟨_, inside, fun static => if_pos static, rfl, called⟩

/-- A step is told in one way only, as far as it is known by entries. -/
theorem Act.entriesAll_step_inj {id : UniqueId} {s s' : Step} {inside inside' : List (Act ν)}
    {fault fault' : Option Fault}
    (same : Act.entriesAll id [.step s inside fault] = Act.entriesAll id [.step s' inside' fault']) :
    s = s' ∧ Act.entriesAll id inside = Act.entriesAll id inside' := by
  simp only [Act.entriesAll, Act.entries, List.append_nil, List.cons.injEq, Entry.step.injEq] at same
  exact ⟨same.1.2.1, (List.append_inj' same.2 rfl).1⟩

theorem TestBody.row {place : Place σ ν} {m : Method σ ν Unit} {limit : Option Duration} {row : List Argument}
    {ds : List (Deed σ ν)} (h : TestBody False env path place m limit ds)
    (positional : Parameter.Positional m.parameters) (alone : Seconded env path place m.name m.parameters row) :
    RowBody env path place m row ds := by
  obtain ⟨permitted, inst, outcome, number, inside, rfl, w, w', there, fresh, goes, told⟩ := h
  obtain ⟨rfl, default⟩ := permitted.resolve_left id
  obtain ⟨_, adds, ends⟩ := performs_invokeTest_given id default positional alone inst w there fresh
  rw [goes] at adds ends
  obtain ⟨inst, inside', static, rfl, called⟩ := ends
  have same := List.append_cancel_left (told.symm.trans adds.trace)
  obtain ⟨step, within⟩ := Act.entriesAll_step_inj same
  cases step
  exact ⟨inst, outcome, inside, rfl, static, within ▸ called⟩

end
end
end TestEngine

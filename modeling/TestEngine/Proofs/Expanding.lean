import TestEngine.Proofs.Generating

/-! The bodies of tests, and the invocations of templates. A provider is asked for its stream when those before it have
been run down, and the invocations are numbered across all of them. -/
namespace TestEngine
variable {σ ν α : Type}

open Deed Execution

theorem goes_abandonAfter {T : Telling ν δ} {env : Environment σ ν} {sites : List (Site σ ν)}
    {E : Halt → List δ → Prop} (timed : T.timed) (outcome : Except Fault Unit) (inst : Option TestInstance) :
    Goes T env sites (abandonAfter outcome inst) (fun _ xs => xs = []) E := by
  unfold abandonAfter
  split
  · split
    · exact fun _ _ _ => ⟨[], ⟨rfl, by rw [T.nil, List.append_nil]; rfl, nofun, .inl timed⟩, rfl⟩
    · exact .pure rfl
  · exact .pure rfl

theorem performs_invokeTest {timed : Prop} {env : Environment σ ν} {limit : Option Duration}
    (permitted : env.Permits timed limit) (m : Method σ ν Unit) (inst : Option TestInstance)
    (sites : List (Site σ ν)) :
    Performs timed env sites (invokeTest m limit inst).run fun outcome acts =>
      ∃ number inside, acts = [.step (.body m.name number) inside (faultOf outcome)] := by
  have taken {code : Attempt σ ν Unit} (number : Option Nat) (h : Quiet code.run) :
      Performs timed env sites (Engine.step (.body m.name number) code).run fun outcome acts =>
        ∃ number inside, acts = [.step (.body m.name number) inside (faultOf outcome)] :=
    ((h timed env sites).step _ rfl).calm_mono fun _ _ ⟨inside, _, same⟩ => ⟨number, inside, same⟩
  apply (Goes.settings).calm_bind
  rintro settings _ ⟨rfl, rfl⟩
  dsimp only
  split
  · exact taken _ (quiet_invoke _ _)
  · rename_i deadline same
    have timed : timed := by
      rcases permitted with timed | ⟨rfl, default⟩
      · exact timed
      · rw [default] at same
        contradiction
    apply (Goes.top?).calm_bind
    rintro top _ ⟨rfl, _⟩
    apply (taken _ (Engine.quiet_before _ _ (quiet_invoke _ _))).calm_bind
    rintro outcome _ ⟨number, inside, rfl⟩
    apply (goes_abandonAfter timed outcome _).calm_bind
    rintro _ _ rfl
    exact .pure ⟨number, inside, rfl⟩

section
variable {env : Environment σ ν} {place : Place σ ν} {path : List (Place σ ν)}

/-- What a leaf that invokes a test method is to know of its body. -/
theorem conducts_invokeTest {limit : Option Duration} (permitted : env.Permits timed limit) (m : Method σ ν Unit)
    (inst : Option TestInstance) : Conducts timed env (place :: path) (invokeTest m limit inst).run
      (fun outcome ds => TestBody timed env path place m limit ds ∧ Collects (raisedBy outcome) (raised ds)) Calm := by
  apply (Performs.conducts (Goes.enactsFresh (performs_invokeTest permitted m inst _))).calm_mono
  rintro outcome _ ⟨_, ⟨⟨number, inside, rfl⟩, enacts⟩, rfl⟩
  refine ⟨⟨permitted, inst, outcome, number, inside, rfl, enacts⟩, ?_⟩
  exact Counted.gathers (P := (· = .body m.name number)) (fun _ => Step.noConfusion) rfl _ outcome

theorem TestBody.method {m : Method σ ν Unit} {limit : Option Duration} {ds : List (Deed σ ν)}
    (h : TestBody timed env path place m limit ds) : MethodBody m.name ds := by
  obtain ⟨_, _, _, number, inside, same, _⟩ := h
  exact ⟨number, inside, _, same⟩

variable {t : Template σ ν}

theorem conducts_executeInvocation (role : place.descriptor.role = .template t)
    (permitted : env.Permits timed place.descriptor.timeout) (index : Nat)
    (invocation : TemplateInvocation (Extension σ ν)) :
    Conducts timed env (place :: path) (executeInvocation t place.descriptor index invocation) (fun _ ds =>
      ∃ v inside, ds = [.visit v inside] ∧ v.MadeAs (dynamicDescriptor place.descriptor
        "test-template-invocation" index invocation.displayName .test invocation.extensions) .executed) Calm := by
  let d : Descriptor σ ν := dynamicDescriptor place.descriptor "test-template-invocation" index
    invocation.displayName .test invocation.extensions
  have leafy : leafBody? (place :: path) d = some (MethodBody t.method.name) := by
    simp [leafBody?, Place.template?, role, d, dynamicDescriptor]
  have visited : ∃ v : Visit σ ν, v.descriptor = d ∧ v.place.below = [] ∧ v.manner = .executed ∧
      v.announced = true ∧ Makes timed env (place :: path) v (fun _ => True)
        (Execution.visit d [] (fun _ => pure ()) (leaf (invokeTest t.method place.descriptor.timeout))) := by
    refine makes_visit (by simp) (fun _ => ⟨rfl, rfl⟩) (fun _ => rfl) rfl
      (fun _ _ none _ => .pure (by rw [none]; exact .nil)) ?_
    intro made same _
    refine (conducts_leaf fun inst => conducts_invokeTest permitted t.method inst).mono ?_
      fun _ _ calm => calm.no_panic
    rintro r _ ⟨⟨p, rfl, order⟩, gathers⟩
    have test : testOf? (place :: path) made.descriptor = some (t.method, place.descriptor.timeout) := by
      simp [testOf?, Place.template?, role, same, d, dynamicDescriptor]
    refine ⟨.leaf (by rw [same]; exact leafy) (order.mono TestBody.method), .none (by simp [same, d, dynamicDescriptor])
      (by simp [same, d, dynamicDescriptor]), fun m limit found => ?_, gathers⟩
    cases test.symm.trans found
    exact ⟨p, rfl, order⟩
  obtain ⟨v, descriptor, _, manner, announced, makes⟩ := visited
  have visits := makes.announced announced
  rw [descriptor] at visits
  apply visits.mono
  · rintro _ _ ⟨inside, rfl, _⟩
    exact ⟨_, inside, rfl, descriptor, manner, announced, rfl⟩
  · rintro h _ ⟨inside, _, law, _⟩ payload rfl
    obtain ⟨_, _, _, _, torn⟩ := law.torn payload rfl
    have noLeaf : leafBody? (place :: path) v.descriptor = none := torn.leafBody?_eq_none
    rw [descriptor, leafy] at noLeaf
    contradiction

theorem Invoked.single {template : Descriptor σ ν} {x : TemplateInvocation (Extension σ ν)}
    {ds : List (Deed σ ν)} (h : Invoked t template index x ds) : Single template.id index ds := by
  unfold Invoked at h
  split at h
  · obtain ⟨v, inside, rfl, made⟩ := h
    exact .visit made.announced made.ended (congrArg Descriptor.id made.descriptor)
  · subst h
    exact ⟨rfl, fun low below => .nil (Nat.le_of_lt below)⟩

theorem conducts_executeDraw (role : place.descriptor.role = .template t)
    (permitted : env.Permits timed place.descriptor.timeout) (index : Nat)
    (d : Draw σ ν (TemplateInvocation (Extension σ ν))) :
    Conducts timed env (place :: path) (executeDraw t place.descriptor index d) (fun error ds =>
      Takes (Invoked t) place.descriptor index d error ds) Calm := by
  apply (conducts_drawItem d).calm_bind
  rintro drawn _ ⟨⟨user, rfl⟩, same⟩
  cases outcome : d.item.outcome with
  | error fault =>
    rw [outcome] at same
    rw [same]
    refine .pure ⟨user, ?_⟩
    rw [outcome]
    exact ⟨rfl, rfl⟩
  | ok invocation =>
    rw [outcome] at same
    rw [same]
    dsimp only
    have used {ds : List (Deed σ ν)} (h : Invoked t place.descriptor index invocation ds) :
        Takes (Invoked t) place.descriptor index d none (.act (d.step user) :: ds) := by
      refine ⟨user, ?_⟩
      rw [outcome]
      exact ⟨rfl, ds, rfl, h⟩
    split
    · rename_i selected
      apply (conducts_executeInvocation role permitted index invocation).calm_bind
      intro _ ds visited
      refine .pure (used ?_)
      rw [List.append_nil]
      exact (if_pos selected).mpr visited
    · rename_i passedOver
      exact .pure (used ((if_neg passedOver).mpr rfl))

theorem conducts_executeSource (role : place.descriptor.role = .template t)
    (permitted : env.Permits timed place.descriptor.timeout) (drawn : Nat)
    (source : Source σ ν (TemplateInvocation (Extension σ ν))) :
    Conducts timed env (place :: path) (executeSource t place.descriptor drawn source) (fun last ds =>
      TakesAll t.last? (Invoked t) drawn place.descriptor source last ds) Calm := by
  cases source with
  | listed draws => exact conducts_inTurn t.last? (conducts_executeDraw role permitted) drawn draws
  | endless draw =>
    have takes (left : Nat) : Conducts timed env (place :: path)
        (upTo (fun i => executeDraw t place.descriptor (drawn + i + 1) (draw i)) drawn left 0) (fun last ds =>
          TakesAll (some (drawn + left)) (Invoked t) drawn place.descriptor (.endless draw) last ds) Calm := by
      simpa using conducts_upTo (fun i => conducts_executeDraw role permitted (drawn + i + 1) (draw i)) left 0
    unfold executeSource Template.last?
    cases t.selection.bind Selection.max? with
    | none => exact conducts_withoutEnd (takes _)
    | some last =>
      by_cases more : drawn ≤ last
      · have taken := takes (last - drawn)
        rw [Nat.add_sub_cancel' more] at taken
        exact taken
      · dsimp only
        rw [Nat.sub_eq_zero_of_le (Nat.le_of_not_le more)]
        exact .pure ⟨[], rfl, .enough rfl (Nat.le_of_not_le more)⟩

theorem conducts_obtain (name : String) (p : InvocationProvider σ ν (Extension σ ν)) :
    Conducts timed env (place :: path) (obtain name p).run (fun outcome ds => ∃ inside,
      ds = [.act (.step (.provide name) inside (faultOf outcome))] ∧
      Enacts env (place :: path) (obtain name p).run outcome
        (Act.entriesAll place.descriptor.id [.step (.provide name) inside (faultOf outcome)]) ∧
      Collects (raisedBy outcome) (raised ds)) Calm := by
  have stepped : TakesStep (· = .provide name) (obtain name p) := by
    refine Quiet.takesStep (.bind (quiet_perform _) fun outcome => ?_) _ rfl
    split <;> exact .pure _
  apply (Performs.conducts (Goes.enacts (stepped _ env _))).calm_mono
  rintro outcome _ ⟨_, ⟨⟨_, inside, rfl, rfl⟩, enacts⟩, rfl⟩
  exact ⟨inside, rfl, enacts, Counted.gathers (P := (· = .provide name)) (fun _ => Step.noConfusion) rfl _ outcome⟩

theorem conducts_executeProviders (role : place.descriptor.role = .template t)
    (permitted : env.Permits timed place.descriptor.timeout) (drawn : Nat)
    (ps : List (String × InvocationProvider σ ν (Extension σ ν))) :
    Conducts timed env (place :: path) (executeProviders t place.descriptor drawn ps) (fun last ds =>
      ∃ xs, last.1 = drawn + xs.length ∧ Supplied env path place t drawn ps ds xs ∧
        Collects last.2.primary (raised ds)) Calm := by
  induction ps generalizing drawn with
  | nil => exact .pure ⟨[], rfl, .all, .nil⟩
  | cons p ps ih =>
    unfold executeProviders
    apply (conducts_obtain p.1 p.2).calm_bind
    rintro outcome _ ⟨inside, rfl, enacts, gathers⟩
    cases outcome with
    | error fault => exact .pure ⟨[], rfl, .refused enacts, by rw [List.append_nil]; exact gathers⟩
    | ok stream =>
      refine (conducts_unlessClosed stream (conducts_executeSource role permitted drawn stream.source)).calm_bind ?_
      rintro ⟨drawn', error⟩ draws takes
      apply (conducts_spend stream (fun _ _ _ => Invoked.single) takes).calm_bind
      rintro c closing ⟨xs, rfl, spent, gathers⟩
      split
      · rename_i none
        have silent : raised (draws ++ closing) = [] := gathers.isEmpty_iff.mp none
        apply (ih _).calm_mono
        rintro last rest ⟨ys, count, supplied, gathered⟩
        refine ⟨xs ++ ys, ?_, ?_, ?_⟩
        · rw [count, List.length_append, Nat.add_assoc]
        · simpa [faultOf] using Supplied.further enacts spent silent supplied
        · rw [raised_append, ← List.append_assoc, raised_append, silent]
          exact gathered
      · rename_i some
        have failed : raised (draws ++ closing) ≠ [] := fun none => some (gathers.isEmpty_iff.mpr none)
        refine .pure ⟨xs, rfl, ?_, ?_⟩
        · simpa [faultOf] using Supplied.stopped enacts spent failed
        · simpa [faultOf] using gathers

theorem conducts_expandTemplate (role : place.descriptor.role = .template t)
    (permitted : env.Permits timed place.descriptor.timeout)
    (ps : List (String × InvocationProvider σ ν (Extension σ ν))) :
    Conducts timed env (place :: path) (expandTemplate t place.descriptor ps) (fun c ds =>
      (∃ supplied xs, Supplied env path place t 0 ps supplied xs ∧
        ds = supplied ++ [lastCheck xs t.allowZero (noInvocations place.descriptor.displayName) supplied]) ∧
      Collects c.primary (raised ds)) Calm := by
  apply (conducts_executeProviders role permitted 0 ps).calm_bind
  rintro ⟨drawn, c⟩ draws ⟨xs, count, supplied, gathers⟩
  apply (conducts_lastCheck xs t.allowZero _ (by cases xs <;> simp_all) gathers).calm_mono
  rintro _ _ ⟨rfl, gathers⟩
  exact ⟨⟨draws, xs, supplied, rfl⟩, gathers⟩

theorem Supplied.numbered {ps : List (String × InvocationProvider σ ν (Extension σ ν))} {ds : List (Deed σ ν)}
    {xs : List (TemplateInvocation (Extension σ ν))} (h : Supplied env path place t drawn ps ds xs) :
    Numbered place.descriptor.id drawn (drawn + xs.length) ds := by
  induction h with
  | all => exact .nil (Nat.le_refl _)
  | refused => exact .act (.nil (Nat.le_refl _))
  | stopped _ spent _ => exact .act (spent.numbered fun _ _ _ => Invoked.single)
  | further _ spent _ _ ih =>
    rw [List.length_append, ← Nat.add_assoc]
    exact .act ((spent.numbered fun _ _ _ => Invoked.single).append ih)

theorem TemplateExpansion.course {ds : List (Deed σ ν)} (h : TemplateExpansion env path place t ds) :
    TemplateCourse place.descriptor.id ds := by
  cases h with
  | unsupported => exact ⟨0, (Numbered.acts _ (Nat.le_refl 0)).append (.act (.nil (Nat.le_refl _)))⟩
  | @supplied _ asked _ xs _ _ _ _ supplied =>
    refine ⟨0 + xs.length, ?_⟩
    rw [List.append_assoc]
    exact (Numbered.acts asked (Nat.le_refl 0)).append
      (.act (supplied.numbered.append (.act (.nil (Nat.le_refl _)))))

/-- Asking providers for their support raises nothing, but a panic of one that is asked goes on above. -/
theorem conducts_supportingProviders (es : List (Extension σ ν)) :
    Conducts timed env path (supportingProviders es) (fun providers ds =>
      (∃ acts : List (Act ν), ds = acts.map .act ∧ SupportAsked acts) ∧ raised ds = [] ∧
        providers.Sublist (es.filterMap fun e => e.invocationProvider.map (e.name, ·)))
      (fun h ds => ∀ payload, h = .panicked payload → TemplateTorn payload ds) := by
  induction es with
  | nil => exact .pure ⟨⟨[], rfl, fun _ => nofun⟩, rfl, .refl _⟩
  | cons e es ih =>
    unfold supportingProviders
    split
    · rename_i none
      rw [List.filterMap_cons, none]
      exact ih
    · rename_i p some
      -- What a provider answers with is no error: it answers, or it panics.
      refine (Performs.conducts
        (Performs.step (S := fun outcome _ => ∀ fault, outcome ≠ .error (.error fault)) ?_ _ rfl)).bind ?_
          fun _ _ calm => calm.no_panic
      · apply (quiet_run p.supports _ env _).calm_bind
        intro outcome _ _
        cases outcome with
        | ok => exact .pure (by simp)
        | error => exact .pure (by simp)
      rintro outcome _ ⟨_, ⟨inside, panics, rfl⟩, rfl⟩
      split
      · rename_i payload
        refine .halt ?_
        rintro _ ⟨⟩
        exact ⟨[], e.name, inside, rfl⟩
      · rename_i fault
        exact absurd rfl (panics fault)
      · rename_i here
        apply ih.bind
        · rintro others _ ⟨⟨acts, rfl, asked⟩, silent, sublist⟩
          refine .pure ⟨⟨.step (.supports e.name) inside none :: acts, by simp [faultOf], ?_⟩, ?_, ?_⟩
          · exact List.forall_mem_cons.mpr ⟨⟨_, _, rfl⟩, asked⟩
          · simpa [faultOf] using silent
          · rw [List.filterMap_cons, some]
            cases here with
            | true => exact sublist.cons_cons _
            | false => exact sublist.cons _
        · rintro h ds torn payload panicked
          obtain ⟨acts, extension, last, rfl⟩ := torn payload panicked
          exact ⟨.step (.supports e.name) inside none :: acts, extension, last, rfl⟩

theorem conducts_executeTemplate (role : place.descriptor.role = .template t)
    (permitted : env.Permits timed place.descriptor.timeout) :
    Conducts timed env (place :: path) (executeTemplate t place.descriptor) (fun r ds =>
      TemplateExpansion env path place t ds ∧ ∃ c : Collector, r = c.toResult ∧ Collects c.primary (raised ds))
      (fun h ds => ∀ payload, h = .panicked payload → TemplateTorn payload ds) := by
  unfold executeTemplate
  refine (Goes.extensions _ (E := Calm)).bind ?_ fun _ _ calm => calm.no_panic
  rintro _ _ ⟨rfl, rfl⟩
  refine (conducts_supportingProviders _).enacts.bind ?_ fun h ds torn payload panicked => torn payload panicked
  rintro providers _ ⟨⟨⟨asked, rfl, supports⟩, silent, sublist⟩, enacts⟩
  have enacts : Enacts env (place :: path)
      (supportingProviders (place.registry.extensions .invocationProvider)) providers
      (Act.entriesAll place.descriptor.id asked) := by
    show Enacts _ _ _ _ (Act.entriesAll place.descriptor.node.id asked)
    rw [← Deed.entriesAll_act]
    exact enacts
  refine (conducts_collect .empty (conducts_check _)).bind ?_ fun _ _ calm => calm.no_panic
  rintro _ _ ⟨outcome, rfl, rfl, checked⟩
  have checks : Collects (Collector.empty.record outcome).primary _ := Collects.nil.record checked
  cases providers with
  | nil =>
    have failed : (Collector.empty.record outcome).isEmpty = false :=
      Bool.eq_false_iff.mpr fun none => List.cons_ne_nil _ _ (checks.isEmpty_iff.mp none)
    simp only [proceedIf, failed]
    exact .pure ⟨by simpa using TemplateExpansion.unsupported enacts supports, _, rfl, by simpa [silent] using checks⟩
  | cons p ps =>
    have fine : (Collector.empty.record outcome).isEmpty = true := checks.isEmpty_iff.mpr rfl
    simp only [proceedIf, fine, if_true]
    refine (conducts_expandTemplate role permitted _).bind ?_ fun _ _ calm => calm.no_panic
    rintro c _ ⟨⟨deeds, xs, supplied, rfl⟩, gathers⟩
    refine .pure ⟨?_, c, rfl, by simpa [silent] using gathers⟩
    simpa using TemplateExpansion.supplied enacts supports (List.cons_ne_nil _ _) sublist supplied

end
end TestEngine

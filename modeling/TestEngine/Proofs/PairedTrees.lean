import TestEngine.Proofs.PairedNodes
import TestEngine.Proofs.Executing
import Mathlib.Data.List.Forall2

/-! Trees in two runs side by side: nodes that are made at run time, and whole trees that both runs execute. -/
namespace TestEngine.Coupling
variable {σ ν α β : Type} {b : Coupling σ ν} {sites : List (Site σ ν)}

open Execution

namespace Pairs
variable {d : Descriptor σ ν} {skips skips' : String → Engine σ ν Unit}

theorem drawItem (draw : Draw σ ν α) :
    b.Pairs sites Eq (Execution.drawItem draw) (Execution.drawItem draw) := by
  have acts : b.Pairs sites (Agree Eq)
      (ExceptT.mk (Engine.act fun s => (draw.item.outcome, (draw.effect s).1, (draw.effect s).2)) : Attempt σ ν α).run
      (ExceptT.mk (Engine.act fun s => (draw.item.outcome, (draw.effect s).1, (draw.effect s).2))).run := by
    rw [ExceptT.run_mk]
    exact (act _).mono fun _ _ => Agree.of_eq
  refine (step _ acts).bind fun outcome _ agree => ?_
  cases agree.eq
  split <;> exact .pure rfl

theorem closeStream (s : Stream σ ν α) :
    b.Pairs sites (Agree Eq) (Execution.closeStream s).run (Execution.closeStream s).run := by
  refine step _ ?_
  rw [ExceptT.run_mk]
  exact (act _).mono fun _ _ => Agree.of_eq

theorem closing (onClose : List (Action σ ν Unit)) (closed : Bool) (error : Option TestError) :
    b.Pairs sites Eq (Execution.closing onClose closed error) (Execution.closing onClose closed error) :=
  collect records_eq rfl (closeStream _)

theorem inTurn {take : Nat → α → Engine σ ν (Option TestError)} {xs : List α}
    (each : ∀ i, ∀ x ∈ xs, b.Pairs sites Eq (take i x) (take i x)) (drawn : Nat) :
    b.Pairs sites Eq (Execution.inTurn take drawn xs) (Execution.inTurn take drawn xs) := by
  induction xs generalizing drawn with
  | nil => exact .pure rfl
  | cons x xs ih =>
    refine (each _ x (by simp)).bind fun error _ same => ?_
    subst same
    split
    · exact .pure rfl
    · exact ih (fun i y member => each i y (by simp [member])) _

theorem upTo {take : Nat → Engine σ ν (Option TestError)} (each : ∀ i, b.Pairs sites Eq (take i) (take i))
    (drawn left i : Nat) :
    b.Pairs sites Eq (Execution.upTo take drawn left i) (Execution.upTo take drawn left i) := by
  induction left generalizing i with
  | zero => exact .pure rfl
  | succ left ih =>
    refine (each i).bind fun error _ same => ?_
    subst same
    split
    · exact .pure rfl
    · exact ih _

theorem withoutEnd {draws : Engine σ ν (Nat × Option TestError)} (h : b.Pairs sites Eq draws draws) :
    b.Pairs sites Eq (Execution.withoutEnd draws) (Execution.withoutEnd draws) := by
  refine h.bind fun last _ same => ?_
  subst same
  split
  · exact .pure rfl
  · exact halt _

theorem unlessClosed (closed : Bool) (drawn : Nat) {draws : Engine σ ν (Nat × Option TestError)}
    (h : b.Pairs sites Eq draws draws) :
    b.Pairs sites Eq (Execution.unlessClosed closed drawn draws) (Execution.unlessClosed closed drawn draws) := by
  cases closed
  · exact h
  · exact .pure rfl

theorem blind_dynamicDescriptor {parent : Descriptor σ ν} {segment : String} {index : Nat} {name : String}
    {kind : NodeKind} {extensions : List (Extension σ ν)} (blind : ∀ x ∈ extensions, x.Blind b.view) :
    (dynamicDescriptor parent segment index name kind extensions).Blind b.view :=
  ⟨trivial, List.forall_mem_map.mpr blind⟩

variable {t : Template σ ν} {template : Descriptor σ ν}

theorem executeInvocation (nests : b.Nests) (blind : t.method.Blind b.view) (index : Nat)
    {invocation : TemplateInvocation (Extension σ ν)} (given : ∀ x ∈ invocation.extensions, x.Blind b.view) :
    b.Pairs sites Eq (Execution.executeInvocation t template index invocation)
      (Execution.executeInvocation t template index invocation) := by
  refine (report _ _).bind fun _ _ _ => ?_
  refine visit nests (blind_dynamicDescriptor given) (fun _ => rfl) (fun _ _ => .pure rfl) fun _ _ => ?_
  exact leaf nests.toTotal fun inst => invokeTest blind _ inst

theorem executeDraw (nests : b.Nests) (blind : t.method.Blind b.view) (index : Nat)
    {draw : Draw σ ν (TemplateInvocation (Extension σ ν))}
    (given : ∀ i, draw.item = .value i → ∀ x ∈ i.extensions, x.Blind b.view) :
    b.Pairs sites Eq (Execution.executeDraw t template index draw) (Execution.executeDraw t template index draw) := by
  -- What the draw answers is its own item, so the invocation is one that the stream gives.
  have drawn : b.Pairs sites (SameAnd fun o => ∀ i, o = .ok i → ∀ x ∈ i.extensions, x.Blind b.view)
      (Execution.drawItem draw) (Execution.drawItem draw) := by
    intro w w' holds there
    have alike := drawItem draw w w' holds there
    have answers (env : Environment σ ν) (v : World σ ν) : ∀ o, ((Execution.drawItem draw).goes env v).1 = .ok o →
        ∀ i, o = .ok i → draw.item = .value i := by
      intro o ends i value
      subst value
      obtain ⟨effect, item⟩ := draw
      cases item with
      | value a => cases ends; rfl
      | error e => cases ends
      | panic payload => cases ends
    refine { alike with outcome := ?_ }
    have agree := alike.outcome
    have value := answers b.env w
    generalize ((Execution.drawItem draw).goes b.env w).1 = o at agree value ⊢
    generalize ((Execution.drawItem draw).goes b.env' w').1 = o' at agree ⊢
    cases agree with
    | ok same => exact .ok ⟨same, fun i isValue => given i (value _ rfl i isValue)⟩
    | error e => exact .error e
  refine drawn.bind ?_
  rintro outcome _ ⟨rfl, known⟩
  split
  · exact .pure rfl
  · rename_i invocation
    split
    · exact (executeInvocation nests blind index (known invocation rfl)).bind fun _ _ _ => .pure rfl
    · exact .pure rfl

theorem executeSource (nests : b.Nests) (blind : t.method.Blind b.view) (drawn : Nat)
    {source : Source σ ν (TemplateInvocation (Extension σ ν))}
    (given : ∀ i, source.Gives i → ∀ x ∈ i.extensions, x.Blind b.view) :
    b.Pairs sites Eq (Execution.executeSource t template drawn source)
      (Execution.executeSource t template drawn source) := by
  cases source with
  | listed draws =>
    refine inTurn (fun i draw member => executeDraw nests blind i fun x value => given x ⟨draw, ?_, value⟩) _
    cases selected : t.selection.bind Selection.max? with
    | none =>
      rw [selected] at member
      exact member
    | some last =>
      rw [selected] at member
      exact List.mem_of_mem_take member
  | endless draw =>
    have each (i : Nat) : b.Pairs sites Eq (Execution.executeDraw t template (drawn + i + 1) (draw i))
        (Execution.executeDraw t template (drawn + i + 1) (draw i)) :=
      executeDraw nests blind _ fun x value => given x ⟨i, value⟩
    dsimp only [Execution.executeSource]
    split
    · exact upTo each _ _ _
    · exact withoutEnd (upTo each _ _ _)

theorem supportingProviders {es : List (Extension σ ν)}
    (blind : ∀ e ∈ es, e.BlindFor b.view (Extension.Blind b.view) .invocationProvider) :
    b.Pairs sites (SameAnd fun ps => ∀ p ∈ ps, p.2.BlindUpTo b.view (Extension.Blind b.view))
      (Execution.supportingProviders es) (Execution.supportingProviders es) := by
  induction es with
  | nil => exact .pure ⟨rfl, nofun⟩
  | cons e es ih =>
    have ⟨here, others⟩ := List.forall_mem_cons.mp blind
    unfold Execution.supportingProviders
    split
    · exact ih others
    · rename_i p found
      have able := here p found
      refine (step (A := Eq) _ ((runs_blind able.supports).bind fun outcome _ agree => ?_)).bind fun asked _ agree => ?_
      · cases agree.eq
        split
        · exact .pure (.ok rfl)
        · exact .pure (.error _)
      · cases agree.eq
        split
        · exact halt _
        · exact ih others
        · rename_i supported
          refine (ih others).bind ?_
          rintro ps _ ⟨rfl, known⟩
          refine .pure ⟨rfl, ?_⟩
          cases supported
          · exact known
          · exact List.forall_mem_cons.mpr ⟨able, known⟩

theorem obtain {name : String} {p : InvocationProvider σ ν (Extension σ ν)}
    (blind : p.BlindUpTo b.view (Extension.Blind b.view)) :
    b.Pairs sites (Agree (SameAnd fun stream => ∀ i, stream.source.Gives i → ∀ x ∈ i.extensions, x.Blind b.view))
      (Execution.obtain name p).run (Execution.obtain name p).run := by
  refine step _ ?_
  have provides : b.Pairs sites
      (Agree (SameAnd fun stream => ∀ i, stream.source.Gives i → ∀ x ∈ i.extensions, x.Blind b.view))
      (Execution.perform p.provide).run (Execution.perform p.provide).run := by
    refine perform blind.provide ?_
    rintro (e | stream) _ ⟨rfl, gives⟩
    · exact .error e
    · exact .ok ⟨rfl, gives⟩
  refine provides.bind fun outcome outcome' agree => ?_
  cases agree with
  | ok known => exact .pure (.ok known)
  | error fault => exact .pure (.error _)

theorem executeProviders (nests : b.Nests) (blind : t.method.Blind b.view)
    {ps : List (String × InvocationProvider σ ν (Extension σ ν))}
    (able : ∀ p ∈ ps, p.2.BlindUpTo b.view (Extension.Blind b.view)) (drawn : Nat) :
    b.Pairs sites Eq (Execution.executeProviders t template drawn ps)
      (Execution.executeProviders t template drawn ps) := by
  induction ps generalizing drawn with
  | nil => exact .pure rfl
  | cons p ps ih =>
    have ⟨here, others⟩ := List.forall_mem_cons.mp able
    refine (obtain here).bind fun outcome outcome' agree => ?_
    cases agree with
    | error fault => exact .pure rfl
    | ok known =>
      obtain ⟨rfl, given⟩ := known
      refine (unlessClosed _ drawn (executeSource nests blind drawn given)).bind fun last _ same => ?_
      subst same
      refine (collect records_eq rfl (closeStream _)).bind fun c _ same => ?_
      subst same
      split
      · exact ih others _
      · exact .pure rfl

theorem executeTemplate (nests : b.Nests) (blind : t.method.Blind b.view) :
    b.Pairs sites Eq (Execution.executeTemplate t template) (Execution.executeTemplate t template) := by
  refine (extensions (nests.covers _ (by decide))).bind ?_
  rintro es _ ⟨rfl, known⟩
  refine (supportingProviders known).bind ?_
  rintro ps _ ⟨rfl, able⟩
  refine (collect records_eq rfl (check _)).bind fun c _ same => ?_
  subst same
  refine (proceedIf ((executeProviders nests blind able 0).bind fun last _ same => ?_)).bind fun c _ same => ?_
  · subst same
    exact collect records_eq rfl (check _)
  · subst same
    exact .pure rfl

theorem executeDynamicNode (nests : b.Nests) (segment : String) (kind : NodeKind) (index : Nat) (name : String)
    {body : Engine σ ν Collector} (h : ∀ sites, b.Pairs sites Eq body body) :
    b.Pairs sites Eq (Execution.executeDynamicNode segment kind index name body)
      (Execution.executeDynamicNode segment kind index name body) := by
  refine top?.bind fun f f' tops => ?_
  have face := tops.face
  cases f with
  | none =>
    rw [Option.map_none, Option.map_eq_none_iff] at face
    rw [face]
    exact .pure rfl
  | some parent =>
    obtain ⟨parent', rfl, same⟩ := Option.map_eq_some_iff.mp face
    have face : parent'.face = parent.face := same
    have node : parent'.descriptor.node = parent.descriptor.node := congrArg Face.node face
    have made : dynamicDescriptor parent'.descriptor segment index name kind [] =
        dynamicDescriptor parent.descriptor segment index name kind [] := by
      have id : parent'.descriptor.id = parent.descriptor.id := congrArg Node.id node
      have source : parent'.descriptor.source = parent.descriptor.source := congrArg Node.source node
      unfold dynamicDescriptor
      rw [id, source]
    have lifecycle : parent'.lifecycle = parent.lifecycle := congrArg Face.lifecycle face
    have held : parent'.held = parent.held := congrArg Face.held face
    have below : b.registry (parent.registry.child .invocation) (parent'.registry.child .invocation) := by
      have agree : Agree b.registry (registerAll (parent.registry.child .invocation) [])
          (registerAll (parent'.registry.child .invocation) []) :=
        nests.registered .invocation (tops.registry parent rfl parent' rfl) nofun
      cases agree with
      | ok related => exact related
    dsimp only
    rw [made, lifecycle, held]
    refine (report _ _).bind fun _ _ _ => ?_
    refine within nests (blind_dynamicDescriptor (by simp)) _ _ below ?_
    refine (report _ _).bind fun _ _ _ => (h _).bind fun c _ same => ?_
    subst same
    exact finish nests.announces rfl _

mutual
theorem executeDynamic (nests : b.Nests) : (n : DynamicNode σ ν) → n.Blind b.view → (index : Nat) →
    ∀ sites, b.Pairs sites Eq (Execution.executeDynamic n index) (Execution.executeDynamic n index)
  | .test _ body, blind, _, _ =>
    executeDynamicNode nests _ _ _ _ fun _ =>
      collect records_eq rfl (step _ (perform_blind (by cases blind; assumption)))
  | .container _ ⟨source, _, closed⟩, blind, _, _ =>
    executeDynamicNode nests _ _ _ _ fun sites =>
      (unlessClosed closed 0 (executeNodes nests source (by cases blind; assumption) sites)).bind fun _ _ same =>
        same ▸ closing _ _ _
theorem executeNodes (nests : b.Nests) : (source : Source σ ν (DynamicNode σ ν)) →
    (∀ n, source.Gives n → n.Blind b.view) →
    ∀ sites, b.Pairs sites Eq (Execution.executeNodes source) (Execution.executeNodes source)
  | .listed draws, blind, sites =>
    executeListed nests draws (fun x member n value => blind n ⟨x, member, value⟩) 0 sites
  | .endless draw, blind, sites =>
    withoutEnd (upTo (fun i => executeNode nests (draw i) (fun n value => blind n ⟨i, value⟩) (i + 1) sites) _ _ _)
theorem executeListed (nests : b.Nests) : (draws : List (Draw σ ν (DynamicNode σ ν))) →
    (∀ x ∈ draws, ∀ n, x.item = .value n → n.Blind b.view) → (drawn : Nat) →
    ∀ sites, b.Pairs sites Eq (Execution.executeListed draws drawn) (Execution.executeListed draws drawn)
  | [], _, _, _ => .pure rfl
  | x :: draws, blind, drawn, sites =>
    have ⟨here, others⟩ := List.forall_mem_cons.mp blind
    (executeNode nests x here (drawn + 1) sites).bind fun error _ same => by
      subst same
      cases error with
      | some e => exact .pure rfl
      | none => exact executeListed nests draws others (drawn + 1) sites
theorem executeNode (nests : b.Nests) : (x : Draw σ ν (DynamicNode σ ν)) →
    (∀ n, x.item = .value n → n.Blind b.view) → (index : Nat) →
    ∀ sites, b.Pairs sites Eq (Execution.executeNode x index) (Execution.executeNode x index)
  | ⟨_, .value n⟩, blind, index, sites =>
    (drawItem _).discard.bind fun _ _ _ =>
      (executeDynamic nests n (blind n rfl) index sites).bind fun _ _ _ => .pure rfl
  | ⟨_, .error _⟩, _, _, _ => (drawItem _).discard.bind fun _ _ _ => .pure rfl
  | ⟨_, .panic _⟩, _, _, _ => (drawItem _).discard.bind fun _ _ _ => .pure rfl
end

theorem runFactory (nests : b.Nests) {f : Factory σ ν} (blind : f.Blind b.view) (inst : Option TestInstance) :
    b.Pairs sites (Agree Eq) (Execution.runFactory f d inst).run (Execution.runFactory f d inst).run := by
  have invokes (inst : Option TestInstance) : b.Pairs sites
      (Agree (SameAnd fun stream : Stream σ ν (DynamicNode σ ν) => ∀ n, stream.source.Gives n → n.Blind b.view))
      (Execution.invoke f.method inst).run (Execution.invoke f.method inst).run := by
    refine invoke blind ?_ inst
    rintro (e | stream) _ ⟨rfl, gives⟩
    · exact .error e
    · exact .ok ⟨rfl, gives⟩
  refine (step _ (invokes _)).attempt_bind ?_
  rintro stream _ ⟨rfl, given⟩
  refine (unlessClosed _ 0 (executeNodes nests _ given _)).lift_bind fun last _ same => ?_
  subst same
  refine (closing _ _ _).lift_bind fun c _ same => ?_
  subst same
  refine (collect records_eq rfl (check _)).lift_bind fun c _ same => ?_
  subst same
  exact raising _

theorem contain {code code' : Engine σ ν Unit} (h : b.Pairs sites Eq code code') :
    b.Pairs sites Eq (Engine.contain code) (Engine.contain code') := by
  intro w w' holds there
  have alike := h w w' holds there
  refine { alike with outcome := ?_ }
  show Agree Eq (Engine.contained (code.goes b.env w).1) (Engine.contained (code'.goes b.env' w').1)
  rw [← alike.outcome.eq]
  exact .of_eq rfl

theorem executeEach {children children' : List (Child σ ν)}
    (each : List.Forall₂ (fun c c' => b.Pairs sites Eq c.2 c'.2) children children') :
    b.Pairs sites Eq (Execution.executeEach children) (Execution.executeEach children') := by
  induction each with
  | nil => exact .pure rfl
  | cons here _ ih => exact here.bind fun _ _ _ => ih

/-- Children that are executed alike and take turns in the same way. -/
theorem executeChildren (same : b.env'.settings = b.env.settings) {children children' : List (Child σ ν)}
    (each : List.Forall₂ (fun c c' =>
      (c'.1.mode = c.1.mode ∧ c'.1.testClass? = c.1.testClass?) ∧ b.Pairs sites Eq c.2 c'.2) children children') :
    b.Pairs sites Eq (Execution.executeChildren children) (Execution.executeChildren children') := by
  refine top?.bind fun f f' tops => ?_
  have face := tops.face
  cases f with
  | none =>
    rw [Option.map_none, Option.map_eq_none_iff] at face
    rw [face]
    exact .pure rfl
  | some f =>
    obtain ⟨f', rfl, alike⟩ := Option.map_eq_some_iff.mp face
    have face : f'.face = f.face := alike
    have testClass? : f'.descriptor.testClass? = f.descriptor.testClass? := congrArg Face.testClass? face
    have lifecycle : f'.lifecycle = f.lifecycle := congrArg Face.lifecycle face
    have held : f'.held = f.held := congrArg Face.held face
    refine settings.bind fun s s' ⟨here, there⟩ => ?_
    rw [here, there, same]
    have concurrent {d d' : Descriptor σ ν} (mode : d'.mode = d.mode) (ofClass : d'.testClass? = d.testClass?) :
        isConcurrent b.env.settings f' d' = isConcurrent b.env.settings f d := by
      unfold isConcurrent modeOf
      rw [testClass?, lifecycle, held, mode, ofClass]
    simp only [List.partition_eq_filter_filter]
    refine (executeEach ?_).bind fun _ _ _ => executeEach ?_
    · refine (List.rel_filter ?_ each).imp fun _ _ alike => alike.2
      rintro c c' ⟨⟨mode, ofClass⟩, -⟩
      simp [concurrent mode ofClass]
    · rw [List.forall₂_map_left_iff, List.forall₂_map_right_iff]
      refine (List.rel_filter ?_ each).imp fun _ _ alike => contain alike.2
      rintro c c' ⟨⟨mode, ofClass⟩, -⟩
      simp [concurrent mode ofClass]

theorem parentTemplate? (total : b.Total) :
    b.Pairs sites (SameAnd fun found => ∀ t limit, found = some (t, limit) → t.method.Blind b.view)
      Execution.parentTemplate? Execution.parentTemplate? := by
  refine frames.bind fun fs fs' ⟨related, _⟩ => ?_
  have faces : fs'.tail.map Frame.face = fs.tail.map Frame.face := by
    rw [List.map_tail, List.map_tail, b.faces related]
  have blind : ∀ f ∈ fs.tail, f.descriptor.Blind b.view := fun f member =>
    total.nodes related f (List.mem_of_mem_tail member)
  generalize fs.tail = above at faces blind ⊢
  cases above with
  | nil =>
    rw [List.map_nil, List.map_eq_nil_iff] at faces
    rw [faces]
    exact .pure ⟨rfl, nofun⟩
  | cons f above =>
    obtain ⟨f', above', frames, face, -⟩ := List.map_eq_cons_iff.mp faces
    rw [frames]
    have template : f'.descriptor.template? = f.descriptor.template? := congrArg Face.template? face
    refine .pure ⟨template.symm, fun t limit found => ?_⟩
    have role := (blind f (by simp)).role
    split at found
    · rename_i same
      cases found
      rwa [same] at role
    · contradiction

end Pairs

/-- What a node does, if this is what is done with its children. -/
def bodyOf (d : Descriptor σ ν) (children : Engine σ ν Unit) (skip : String → Engine σ ν Unit) :
    Engine σ ν ExecutionResult := do
  match d.role with
  | .engine =>
    children
    return .successful
  | .testClass c =>
    let lifecycle := ((← Engine.top?).map (·.lifecycle)).getD .perMethod
    executeClass c lifecycle children skip
  | .test m => leaf (invokeTest m d.timeout)
  | .template t => executeTemplate t d
  | .factory f => leaf (runFactory f d)
  | .dynamic =>
    match ← parentTemplate? with
    | some (t, limit) => leaf (invokeTest t.method limit)
    | none =>
      children
      return .successful

theorem executeRole_eq (d : Descriptor σ ν) (children : List (Child σ ν)) (skip : String → Engine σ ν Unit) :
    executeRole d children skip = bodyOf d (executeChildren children) skip := rfl

/-- The body of a node is executed alike if what is done below it is. -/
theorem Gates.body {At : List (Site σ ν) → Prop} (children children' : Descent σ ν → Engine σ ν Unit)
    (skips skips' : Descent σ ν → String → Engine σ ν Unit) (nests : b.Nests) {d : Descriptor σ ν}
    (blind : d.Blind b.view)
    (executes : b.Gates sites At children children')
    (below : ∀ reason, b.Gates sites At (skips · reason) (skips' · reason)) :
    b.Gates sites At (fun p => bodyOf d (children p) (skips p)) fun p => bodyOf d (children' p) (skips' p) := by
  have role := blind.role
  unfold bodyOf
  cases same : d.role with
  | engine => exact executes.bind fun _ => .pure rfl
  | testClass c =>
    rw [same] at role
    refine after Pairs.top? fun f f' tops => ?_
    have lifecycle : f'.map (·.lifecycle) = f.map (·.lifecycle) := tops.part fun face => face.lifecycle
    rw [lifecycle]
    exact executeClass nests.toTotal role _ executes below
  | test m =>
    rw [same] at role
    exact .of_pairs (.leaf nests.toTotal fun inst => .invokeTest role _ inst)
  | template t =>
    rw [same] at role
    exact .of_pairs (.executeTemplate nests role)
  | factory f =>
    rw [same] at role
    exact .of_pairs (.leaf nests.toTotal fun inst => .runFactory nests role inst)
  | dynamic =>
    refine after (Pairs.parentTemplate? nests.toTotal) ?_
    rintro found _ ⟨rfl, known⟩
    split
    · rename_i t limit
      exact .of_pairs (.leaf nests.toTotal fun inst => .invokeTest (known t limit rfl) _ inst)
    · exact executes.bind fun _ => .pure rfl

namespace Pairs
variable {d : Descriptor σ ν} {skips skips' : String → Engine σ ν Unit} {children children' : List (Child σ ν)}

theorem executeRole (nests : b.Nests)
    (blind : d.Blind b.view)
    (executes : b.Pairs sites Eq (Execution.executeChildren children) (Execution.executeChildren children'))
    (below : ∀ reason, b.Pairs sites Eq (skips reason) (skips' reason)) :
    b.Pairs sites Eq (Execution.executeRole d children skips) (Execution.executeRole d children' skips') := by
  rw [executeRole_eq, executeRole_eq]
  exact (Gates.body (fun _ => Execution.executeChildren children) (fun _ => Execution.executeChildren children')
    (fun _ => skips) (fun _ => skips') nests blind (.of_pairs executes) fun reason => .of_pairs (below reason)).pairs

mutual
/-- A tree is executed alike in two runs with the same settings if all of its code is blind. -/
theorem execute (nests : b.Nests) (same : b.env'.settings = b.env.settings) : (t : TestTree σ ν) →
    (∀ x ∈ t.preorder, x.Blind b.view) → ∀ sites, b.Pairs sites Eq (Execution.execute t) (Execution.execute t)
  | .node _ cs, blind, _ =>
    have ⟨own, below⟩ := List.forall_mem_cons.mp blind
    visit nests own (fun _ => rfl) (fun sites reason => skipAll nests cs below reason sites) fun _ _ =>
      executeRole nests own (executeChildren same (childrenOf nests same cs below _)) fun reason =>
        skipAll nests cs below reason _
theorem childrenOf (nests : b.Nests) (same : b.env'.settings = b.env.settings) : (ts : List (TestTree σ ν)) →
    (∀ x ∈ TestTree.preorderAll ts, x.Blind b.view) → ∀ sites, List.Forall₂ (fun c c' =>
      (c'.1.mode = c.1.mode ∧ c'.1.testClass? = c.1.testClass?) ∧ b.Pairs sites Eq c.2 c'.2)
      (Execution.childrenOf ts) (Execution.childrenOf ts)
  | [], _, _ => .nil
  | t :: ts, blind, sites =>
    have ⟨first, others⟩ := List.forall_mem_append.mp blind
    .cons ⟨⟨rfl, rfl⟩, execute nests same t first sites⟩ (childrenOf nests same ts others sites)
end

end Pairs

variable {c c' : Configuration} {extensions extensions' : List (Declared σ ν)}
  {registry registry' : Registry (Extension σ ν)} {tree tree' : TestTree σ ν} {user : σ} {run : Run σ ν}

/-- Where the tree of a run ends like another valid tree, the other run starts, too, and ends alike. -/
theorem execute_alike (registered : rootRegistry extensions = .ok registry)
    (registered' : rootRegistry extensions' = .ok registry') (valid : tree'.validate = .ok ())
    (here : b.env = environment c registry) (there : b.env' = environment c' registry')
    (alike : EndAlike b.Holds { user } [] Eq ((Execution.execute tree).goes b.env { user })
      ((Execution.execute tree').goes b.env' { user }))
    (executed : TestEngine.execute c extensions tree user = .ok run) :
    ∃ run', TestEngine.execute c' extensions' tree' user = .ok run' ∧ b.trace run.trace run'.trace ∧
      run'.halt = run.halt ∧ run'.user = run.user := by
  obtain ⟨_, same, rfl⟩ := execute_ok executed
  cases registered.symm.trans same
  rw [here, there] at alike
  unfold TestEngine.execute
  rw [valid, registered']
  refine ⟨_, rfl, alike.holds.trace, ?_, alike.holds.user⟩
  dsimp only
  rw [alike.outcome.eq]
  rfl

end TestEngine.Coupling

namespace TestEngine
variable {σ ν : Type} {S : View → View → Prop}

theorem infoOf_eq {v v' : View} (same : v'.path = v.path) : Extension.infoOf v' = Extension.infoOf v := by
  have node : v'.node = v.node := (List.cons.inj same).1
  unfold Extension.infoOf View.testClass? View.testMethod?
  rw [same, node]

theorem blind_testInfoResolver (path : ∀ {v v' : View}, S v v' → v'.path = v.path) :
    (Extension.testInfoResolver : Extension σ ν).Blind S :=
  Extension.blind_resolver _ fun p => ⟨.done rfl, .look fun v v' seen => .fresh fun number => by
    dsimp only
    rw [infoOf_eq (path seen)]
    exact .done rfl⟩

theorem blind_testReporterResolver (path : ∀ {v v' : View}, S v v' → v'.path = v.path) :
    (Extension.testReporterResolver : Extension σ ν).Blind S :=
  Extension.blind_resolver _ fun p => ⟨.done rfl, .look fun v v' seen => .fresh fun number => by
    dsimp only
    rw [(List.cons.inj (path seen)).1]
    exact .done rfl⟩

theorem rootRegistry_blind {extensions : List (Declared σ ν)} {registry : Registry (Extension σ ν)}
    (path : ∀ {v v' : View}, S v v' → v'.path = v.path) (blind : ∀ x ∈ extensions, x.extension.Blind S)
    (registered : rootRegistry extensions = .ok registry) : registry.Blind S := by
  have none : (Registry.root : Registry (Extension σ ν)).Blind S := fun e among => nomatch among
  exact none.registerAll (List.forall_mem_append.mpr ⟨List.forall_mem_cons.mpr ⟨blind_testInfoResolver path,
    List.forall_mem_singleton.mpr (blind_testReporterResolver path)⟩, blind⟩) registered

end TestEngine

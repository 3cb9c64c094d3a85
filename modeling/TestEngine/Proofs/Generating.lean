import TestEngine.Proofs.Streams

/-! Nodes that are made from streams, those of factories above all. Each is visited behind those made before it, under a
number of its own, and what drawing it raises counts for the node that makes it. -/
namespace TestEngine
variable {σ ν α : Type}

open Deed Execution

namespace Numbered
variable {parent : UniqueId} {ds es : List (Deed σ ν)}

theorem widen (h : Numbered parent low high ds) (lower : low' ≤ low) (higher : high ≤ high') :
    Numbered parent low' high' ds := by
  induction h generalizing low' high' with
  | nil within => exact .nil (by omega)
  | act _ ih => exact .act (ih lower higher)
  | visit above announced left id _ ih =>
    exact .visit (by omega) announced left id (ih (Nat.le_refl _) higher)

theorem append (first : Numbered parent low mid ds) (second : Numbered parent mid high es) :
    Numbered parent low high (ds ++ es) := by
  induction first with
  | nil within => exact second.widen within (Nat.le_refl _)
  | act _ ih => exact .act (ih second)
  | visit above announced left id _ ih => exact .visit above announced left id (ih second)

theorem acts (acts : List (Act ν)) (within : low ≤ high) :
    Numbered parent low high (acts.map (.act (σ := σ))) := by
  induction acts with
  | nil => exact .nil within
  | cons a acts ih => exact .act ih

end Numbered

section
variable {env : Environment σ ν} {place : Place σ ν} {path : List (Place σ ν)}

/-- At most one node is made, under this number, and nothing is raised. -/
def Single (parent : UniqueId) (index : Nat) (ds : List (Deed σ ν)) : Prop :=
  raised ds = [] ∧ ∀ low, low < index → Numbered parent low index ds

theorem Single.visit {v : Visit σ ν} {parent : UniqueId} {inside : List (Deed σ ν)}
    (announced : v.announced = true) (ended : v.leaving = .ended)
    (id : v.id = parent.append kind ("#" ++ toString index)) : Single parent index [.visit v inside] :=
  ⟨rfl, fun _ above => .visit above announced ended id (.nil (Nat.le_refl _))⟩

theorem Taken.numbered {limit : Option Nat} {Use : Descriptor σ ν → Nat → α → List (Deed σ ν) → Prop}
    {parent : Descriptor σ ν} {source : Source σ ν α} {ds : List (Deed σ ν)} {xs : List α}
    (h : Taken limit Use drawn parent source ds xs error)
    (uses : ∀ i x used, Use parent i x used → Single parent.id i used) :
    Numbered parent.id drawn (drawn + xs.length) ds ∧ raised ds = error.toList := by
  induction h with
  | enough | exhausted => exact ⟨.nil (Nat.le_refl _), rfl⟩
  | failed _ _ failed => exact ⟨.act (.nil (Nat.le_refl _)), by simp [Draw.step, failed, faultOf, raised, error?]⟩
  | taken _ _ value use _ ih =>
    obtain ⟨silent, made⟩ := uses _ _ _ use
    obtain ⟨rest, raisedByRest⟩ := ih uses
    constructor
    · rw [List.length_cons, Nat.add_comm _ 1, ← Nat.add_assoc]
      exact .act ((made _ (Nat.lt_succ_self _)).append rest)
    · simp only [List.cons_append, Draw.step, value, faultOf, raised_succeeded, raised_append, silent,
        List.nil_append, raisedByRest]

theorem Spent.numbered {limit : Option Nat} {Use : Descriptor σ ν → Nat → α → List (Deed σ ν) → Prop}
    {parent : Descriptor σ ν} {stream : Stream σ ν α} {ds : List (Deed σ ν)} {xs : List α}
    (h : Spent limit Use ds drawn parent stream xs)
    (uses : ∀ i x used, Use parent i x used → Single parent.id i used) :
    Numbered parent.id drawn (drawn + xs.length) ds := by
  cases h with
  | closed taken => exact (taken.numbered uses).1.append (.act (.nil (Nat.le_refl _)))

theorem Taken.mono {limit : Option Nat} {Use Use' : Descriptor σ ν → Nat → α → List (Deed σ ν) → Prop}
    {parent : Descriptor σ ν} {source : Source σ ν α} {ds : List (Deed σ ν)} {xs : List α}
    (h : Taken limit Use drawn parent source ds xs error)
    (implies : ∀ i x used, Use parent i x used → Use' parent i x used) :
    Taken limit Use' drawn parent source ds xs error := by
  induction h with
  | enough here reached => exact .enough here reached
  | exhausted next => exact .exhausted next
  | failed more next raised => exact .failed more next raised
  | taken more next value use _ ih => exact .taken more next value (implies _ _ _ use) (ih implies)

theorem Spent.mono {limit : Option Nat} {Use Use' : Descriptor σ ν → Nat → α → List (Deed σ ν) → Prop}
    {parent : Descriptor σ ν} {stream : Stream σ ν α} {ds : List (Deed σ ν)} {xs : List α}
    (h : Spent limit Use ds drawn parent stream xs)
    (implies : ∀ i x used, Use parent i x used → Use' parent i x used) :
    Spent limit Use' ds drawn parent stream xs := by
  cases h with
  | closed taken => exact .closed (taken.mono implies)

/-- Code that takes what is left of a stream and then closes that, and gathers what that raises. -/
theorem conducts_spend {limit : Option Nat} {Use : Descriptor σ ν → Nat → α → List (Deed σ ν) → Prop}
    {parent : Descriptor σ ν} (stream : Stream σ ν α) {last : Nat × Option TestError} {ds : List (Deed σ ν)}
    (uses : ∀ i x used, Use parent i x used → Single parent.id i used)
    (takes : TakesAll limit Use drawn parent stream.remaining last ds) :
    Conducts timed env path (collect (last.2.elim Collector.empty Collector.empty.add) (closeStream stream))
      (fun c closing => ∃ xs, last.1 = drawn + xs.length ∧
        Spent limit Use (ds ++ closing) drawn parent stream xs ∧ Collects c.primary (raised (ds ++ closing))) Calm := by
  obtain ⟨xs, count, taken⟩ := takes
  apply (conducts_closeStream stream last.2).calm_mono
  rintro c _ ⟨user, rfl, gathers⟩
  refine ⟨xs, count, .closed taken, ?_⟩
  rw [raised_append, (taken.numbered uses).2]
  exact gathers

/-- Inside the visit to such a node its body runs, and it is finished with what that gathers. -/
theorem does_made {v : Visit σ ν} (made : v.manner = .made) {IsCourse : Place σ ν → List (Deed σ ν) → Prop}
    {body : Engine σ ν Collector}
    (bodily : Conducts timed env (v.place :: path) body (fun c ds => IsCourse v.place ds ∧
      (∃ high, Numbered v.descriptor.id 0 high ds) ∧ Collects c.primary (raised ds)) Calm)
    (isMade : ∀ course ending, IsCourse v.place course → Finish v.place ending →
      MadeInside env v (.report .started :: course ++ ending)) :
    Does timed env (v.place :: path) (do
        Engine.report v.descriptor.node .started
        let c ← body
        finish v.descriptor c.toResult)
      (fun _ ds => Kept timed env path v ds ∧ ∃ course ending, ds = .report .started :: course ++ ending ∧
        IsCourse v.place course ∧ Finish v.place ending) Hanging := by
  have courses := bodily.does.mono (R := fun c ds => Underway ds ∧
      (IsCourse v.place ds ∧ ∃ high, Numbered v.descriptor.id 0 high ds) ∧
      ∃ c' : Collector, c.toResult = c'.toResult ∧ Collects c'.primary (raised ([] : List (Deed σ ν)) ++ raised ds))
    (F := fun h ds => Underway ds ∧ ∀ payload, h = .panicked payload → False)
    (fun c _ ⟨underway, isCourse, numbered, gathers⟩ => ⟨underway, ⟨isCourse, numbered⟩, c, rfl, gathers⟩)
    fun _ _ h => h
  refine (does_started .nil courses).mono ?_ fun _ _ h => ⟨h.1, fun payload panicked =>
    (h.2 payload panicked).elim fun _ never => never.2⟩
  rintro _ _ ⟨_, course, ending, rfl, ⟨isCourse, high, numbered⟩, finish, told, tells⟩
  exact ⟨.of_started (.made made numbered finish) (by simp) tells (by simp [admission]) (by simp [admission])
    (fun _ => isMade course ending isCourse finish) told, course, ending, rfl, isCourse, finish⟩

theorem conducts_executeDynamicNode (segment : String) (kind : NodeKind) (index : Nat) (name : String)
    (IsCourse : Place σ ν → List (Deed σ ν) → Prop) {body : Engine σ ν Collector}
    (bodily : ∀ made : Place σ ν,
      made.descriptor = dynamicDescriptor place.descriptor segment index name kind [] →
      Conducts timed env (made :: place :: path) body (fun c ds => IsCourse made ds ∧
        (∃ high, Numbered made.descriptor.id 0 high ds) ∧ Collects c.primary (raised ds)) Calm)
    (isMade : ∀ {v : Visit σ ν} {course ending : List (Deed σ ν)}, v.descriptor.kind = kind →
      IsCourse v.place course → Finish v.place ending → MadeInside env v (.report .started :: course ++ ending)) :
    Conducts timed env (place :: path) (executeDynamicNode segment kind index name body) (fun _ ds =>
      ∃ v course ending, ds = [.visit v (.report .started :: course ++ ending)] ∧
        v.MadeAs (dynamicDescriptor place.descriptor segment index name kind []) .made ∧
        IsCourse v.place course ∧ Finish v.place ending) Calm := by
  let d : Descriptor σ ν := dynamicDescriptor place.descriptor segment index name kind []
  let v : Visit σ ν :=
    { place := ⟨⟨d, registryBelow env (place :: path) d, lifecycleBelow env.settings (place :: path) d,
        place.held⟩, []⟩
      manner := .made, announced := true, locks := [], leaving := .ended }
  let Inside (ds : List (Deed σ ν)) : Prop := ∃ course ending, ds = .report .started :: course ++ ending ∧
    IsCourse v.place course ∧ Finish v.place ending
  have admissible : Admissible env (place :: path) v := ⟨rfl, rfl, by simp [v], fun _ => ⟨rfl, rfl⟩⟩
  have secured : Secured (place :: path) v :=
    ⟨by simp [v], fun _ => rfl, fun _ => (List.append_nil _).symm, fun _ => rfl⟩
  have calm : ∀ h ds, OneVisit timed env (place :: path) { v with leaving := .of h } Inside ds → Calm h ds := by
    rintro h _ ⟨inside, _, law, _⟩ payload rfl
    exact Manner.noConfusion (law.torn payload rfl).1
  apply (Goes.top?).calm_bind
  rintro top _ ⟨rfl, same⟩
  cases top with
  | none => contradiction
  | some parent =>
    have site : parent.site = place.toSite := Option.some.inj same
    have descriptor : parent.descriptor = place.descriptor := congrArg Site.descriptor site
    have registry : parent.registry = place.registry := congrArg Site.registry site
    have lifecycle : parent.lifecycle = place.lifecycle := congrArg Site.lifecycle site
    have held : parent.held = place.held := congrArg Site.held site
    dsimp only
    rw [descriptor, registry, lifecycle, held]
    have inner := does_made (v := v) rfl (bodily v.place rfl) fun _ _ => isMade (v := v) rfl
    have made : Makes timed env (place :: path) v Inside (Engine.within
        { descriptor := d, registry := place.registry.child .invocation, lifecycle := place.lifecycle,
          held := place.held } (do
            Engine.report d.node .started
            let c ← body
            finish d c.toResult)) := by
      refine (fills_within (v := v) rfl inner ?_ ?_).mono (fun _ _ fills => fills.amounts rfl)
        fun _ _ fills => fills.amounts rfl
      · exact fun ds watched inside => ⟨admissible.ended secured watched inside.1, inside.2⟩
      · exact fun h ds watched hanging =>
          admissible.broken secured watched (by simp [v]) hanging.1 fun p panicked => absurd panicked (hanging.2 p)
    refine (made.announced rfl).mono ?_ calm
    rintro _ _ ⟨_, rfl, _, known⟩
    obtain ⟨course, ending, rfl, isCourse, finish⟩ := known rfl
    exact ⟨_, course, ending, rfl, ⟨rfl, rfl, rfl, rfl⟩, isCourse, finish⟩

theorem Made.single {parent : Descriptor σ ν} {node : DynamicNode σ ν} {ds : List (Deed σ ν)}
    (h : Made parent index node ds) : Single parent.id index ds := by
  cases h with
  | test made _ | container made _ _ =>
    exact .visit made.announced made.ended (congrArg Descriptor.id made.descriptor)

/-- What is known of a node with the code that it runs is known of the node. -/
theorem Ran.made {parent : Descriptor σ ν} {node : DynamicNode σ ν} {ds : List (Deed σ ν)}
    (h : Ran env parent index node ds) : Made parent index node ds := by
  refine Ran.rec (motive_1 := fun parent index node ds _ => Made parent index node ds)
    (motive_2 := fun ds drawn parent stream nodes _ => Spent none Made ds drawn parent stream nodes)
    (motive_3 := fun drawn parent source ds nodes error _ => Taken none Made drawn parent source ds nodes error)
    ?_ ?_ ?_ ?_ ?_ ?_ ?_ h
  · exact fun made _ finish => .test made finish
  · exact fun made _ finish spent => .container made spent finish
  · exact fun _ taken => .closed taken
  · exact .enough
  · exact .exhausted
  · exact .failed
  · exact fun more next value _ _ used taken => .taken more next value used taken

theorem Ran.single {parent : Descriptor σ ν} {node : DynamicNode σ ν} {ds : List (Deed σ ν)}
    (h : Ran env parent index node ds) : Single parent.id index ds := h.made.single

mutual
theorem conducts_executeDynamic : (n : DynamicNode σ ν) → (place : Place σ ν) → (path : List (Place σ ν)) →
    (index : Nat) → Conducts timed env (place :: path) (executeDynamic n index) (fun _ ds =>
      Ran env place.descriptor index n ds) Calm
  | .test name body, place, path, index => by
    refine (conducts_executeDynamicNode _ _ _ _ (fun made ds => ∃ inside outcome,
      ds = [.act (.step .dynamicBody inside (faultOf outcome))] ∧
      Enacts env (made :: place :: path) (perform body).run outcome (Act.entriesAll made.descriptor.id inside))
      (fun made _ => ?_) ?_).calm_mono ?_
    · apply (conducts_collect _ (Performs.conducts (Performs.step
        (Goes.enacts (quiet_perform body _ env _)) .dynamicBody rfl))).calm_mono
      rintro _ _ ⟨outcome, rfl, _, ⟨inside, ⟨-, enacts⟩, rfl⟩, rfl⟩
      refine ⟨⟨inside, outcome, rfl, enacts⟩, ⟨0, .act (.nil (Nat.le_refl _))⟩, ?_⟩
      exact Collects.nil.record
        (Counted.gathers (P := (· = .dynamicBody)) (fun _ => Step.noConfusion) rfl _ outcome)
    · rintro v _ ending kind ⟨inside, fault, rfl, _⟩ finish
      exact .test kind finish
    · rintro _ _ ⟨v, _, ending, rfl, made, ⟨inside, outcome, rfl, enacts⟩, finish⟩
      exact .test made enacts finish
  | .container name ⟨source, onClose, closed⟩, place, path, index => by
    refine (conducts_executeDynamicNode _ _ _ _ (fun made ds => ∃ nodes,
      Spent none (Ran env) ds 0 made.descriptor ⟨source, onClose, closed⟩ nodes) (fun made _ => ?_) ?_).calm_mono ?_
    · apply (conducts_unlessClosed ⟨source, onClose, closed⟩
        (conducts_executeNodes source made (place :: path))).calm_bind
      rintro ⟨drawn, error⟩ ds takes
      apply (conducts_spend ⟨source, onClose, closed⟩ (fun _ _ _ => Ran.single) takes).calm_mono
      rintro c closing ⟨nodes, _, spent, gathers⟩
      exact ⟨⟨nodes, spent⟩, ⟨_, spent.numbered fun _ _ _ => Ran.single⟩, gathers⟩
    · rintro v course ending kind ⟨nodes, spent⟩ finish
      exact .container kind spent finish
    · rintro _ _ ⟨v, course, ending, rfl, made, ⟨nodes, spent⟩, finish⟩
      exact .container made spent finish
theorem conducts_executeNodes : (source : Source σ ν (DynamicNode σ ν)) → (place : Place σ ν) →
    (path : List (Place σ ν)) → Conducts timed env (place :: path) (executeNodes source) (fun last ds =>
      TakesAll none (Ran env) 0 place.descriptor source last ds) Calm
  | .listed draws, place, path => conducts_executeListed draws place path 0
  | .endless draw, place, path => by
    have takes (i : Nat) : Conducts timed env (place :: path) (executeNode (draw i) (i + 1))
        (fun error ds => Takes (Ran env) place.descriptor (0 + i + 1) (draw i) error ds) Calm := by
      rw [Nat.zero_add]
      exact conducts_executeNode (draw i) place path (i + 1)
    have taken := conducts_upTo takes drawLimit 0
    simp only [Nat.zero_add] at taken
    exact conducts_withoutEnd taken
theorem conducts_executeListed : (draws : List (Draw σ ν (DynamicNode σ ν))) → (place : Place σ ν) →
    (path : List (Place σ ν)) → (drawn : Nat) → Conducts timed env (place :: path) (executeListed draws drawn)
      (fun last ds => TakesAll none (Ran env) drawn place.descriptor (.listed draws) last ds) Calm
  | [], _, _, _ => .pure ⟨[], rfl, .exhausted rfl⟩
  | d :: draws, place, path, drawn => by
    apply (conducts_executeNode d place path (drawn + 1)).calm_bind
    intro error ds takes
    cases error with
    | some e =>
      refine .pure ?_
      rw [List.append_nil]
      exact takes.failed nofun rfl
    | none =>
      exact (conducts_executeListed draws place path (drawn + 1)).calm_mono
        fun _ _ rest => takes.behind nofun rfl rest
theorem conducts_executeNode : (d : Draw σ ν (DynamicNode σ ν)) → (place : Place σ ν) →
    (path : List (Place σ ν)) → (index : Nat) → Conducts timed env (place :: path) (executeNode d index)
      (fun error ds => Takes (Ran env) place.descriptor index d error ds) Calm
  | ⟨effect, .value node⟩, place, path, index => by
    apply (conducts_discardedDraw _).calm_bind
    rintro _ _ ⟨user, rfl⟩
    apply (conducts_executeDynamic node place path index).calm_bind
    intro _ ds made
    exact .pure ⟨user, rfl, ds, congrArg _ (List.append_nil ds), made⟩
  | ⟨effect, .error e⟩, place, path, index => by
    apply (conducts_discardedDraw _).calm_bind
    rintro _ _ ⟨user, rfl⟩
    exact .pure ⟨user, rfl, rfl⟩
  | ⟨effect, .panic payload⟩, place, path, index => by
    apply (conducts_discardedDraw _).calm_bind
    rintro _ _ ⟨user, rfl⟩
    exact .pure ⟨user, rfl, rfl⟩
end

/-- What a factory is to know of its body: its method, and the nodes of the stream that makes. -/
theorem conducts_runFactory (f : Factory σ ν) (inst : Option TestInstance) :
    Conducts timed env (place :: path) (runFactory f place.descriptor inst).run (fun outcome ds =>
      FactoryExpansion env path place f ds ∧ Collects (raisedBy outcome) (raised ds)) Calm := by
  have counted (number : Option Nat) : Counted (· = .body f.method.name number) := fun _ => Step.noConfusion
  unfold runFactory
  refine (Performs.conducts (Performs.step
    (Goes.enacts (quiet_invoke f.method _ _ env _)) _ rfl)).calm_attempt_bind ?_ ?_
  · rintro stream _ ⟨_, ⟨inside, ⟨-, enacts⟩, rfl⟩, rfl⟩
    have nodes : Conducts timed env (place :: path) _ _ _ := conducts_executeNodes stream.source place path
    have executes := conducts_unlessClosed stream nodes
    refine .calm_lift_bind executes ?_
    rintro ⟨drawn, error⟩ draws takes
    refine .calm_lift_bind (conducts_spend stream (fun _ _ _ => Ran.single) takes) ?_
    rintro c closing ⟨nodes, count, spent, gathers⟩
    refine .calm_lift_bind (conducts_lastCheck nodes f.allowZero _ ?_ gathers) ?_
    · cases nodes <;> simp_all
    rintro c' _ ⟨rfl, gathers⟩
    refine (Goes.raising _).mono ?_ fun _ _ e => e
    rintro outcome _ ⟨rfl, same⟩
    refine ⟨by simpa [faultOf] using FactoryExpansion.spent enacts spent, ?_⟩
    simpa [faultOf] using gathers.raising same
  · rintro fault _ ⟨_, ⟨inside, ⟨-, enacts⟩, rfl⟩, rfl⟩
    exact ⟨.failed enacts, (counted _).gathers rfl _ (.error fault : Except Fault Unit)⟩

theorem FactoryExpansion.body {f : Factory σ ν} {ds : List (Deed σ ν)}
    (h : FactoryExpansion env path place f ds) : FactoryBody place.descriptor.id f.method.name ds := by
  cases h with
  | failed => exact ⟨_, _, _, [], 0, rfl, fun _ => rfl, .nil (Nat.le_refl _)⟩
  | spent _ spent =>
    exact ⟨_, _, none, _, _, rfl, fun some => absurd rfl some,
      (spent.numbered fun _ _ _ => Ran.single).append (.act (.nil (Nat.le_refl _)))⟩

end
end TestEngine

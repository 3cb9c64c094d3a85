import TestEngine.Proofs.Arguments
import TestEngine.Proofs.Coverage
import TestEngine.Proofs.Invocations

/-! Every stream that a node is given is let go: behind the nodes that are made from it, however drawing them
ends, and before the node goes on, its close actions are run, each once. So are those of the streams that make
it up, and those of the containers that are drawn from it. -/
namespace TestEngine
variable {σ ν α : Type}

open Deed Execution

/-- A stream is used and let go. Elements are drawn, and a node that is made from one comes to its end before
anything else is done. Behind the last, the close actions are run in order. -/
inductive LetGo (stream : Stream σ ν α) : List (Deed σ ν) → Prop where
  | behind : (∀ d ∈ uses, d.isDraw ∨ ∃ v inside, d = .visit v inside ∧ v.leaving = .ended ∧ Reported inside) →
      LetGo stream (uses ++ [.act (stream.closingStep user)])

/-- A provider is asked for its stream, from one world or another. If it is that of a parameterized test, it starts
the sources, and lets go of what they have made if one of them fails. -/
inductive Asked (env : Environment σ ν) (path : List (Place σ ν)) (place : Place σ ν) (name : String)
    (p : InvocationProvider σ ν (Extension σ ν)) (inside : List (Act ν)) :
    Except Fault (Stream σ ν (TemplateInvocation (Extension σ ν))) → Prop where
  | provides : w.frames.map Frame.site = (place :: path).map (·.toSite) →
      (perform p.provide).run.goes env w = (.ok provided, w') →
      w'.trace.toList = w.trace.toList ++ Act.entriesAll place.descriptor.id inside →
      (∀ pattern sources, (Extension.parameterized pattern sources).invocationProvider = some p →
        ArgumentSource.Provides env sources w provided w') →
      Asked env path place name p inside (provided.mapError fun fault => .error (notObtained name fault.toError))

inductive Served (env : Environment σ ν) (path : List (Place σ ν)) (place : Place σ ν) :
    String × InvocationProvider σ ν (Extension σ ν) → List (Deed σ ν) → Prop where
  | refused : Asked env path place name p inside (.error fault) →
      Served env path place (name, p) [.act (.step (.provide name) inside (some fault))]
  | served : Asked env path place name p inside (.ok stream) → LetGo stream uses →
      Served env path place (name, p) (.act (.step (.provide name) inside none) :: uses)

variable {env : Environment σ ν} {path : List (Place σ ν)} {place : Place σ ν} {ds : List (Deed σ ν)}

section
variable {limit : Option Nat} {Use : Descriptor σ ν → Nat → α → List (Deed σ ν) → Prop} {parent : Descriptor σ ν}
  {xs : List α}

/-- Where elements are taken there are draws, and visits to what is made from them. -/
theorem Taken.draws_or_visits {source : Source σ ν α} (h : Taken limit Use drawn parent source ds xs error)
    (uses : ∀ i x used, Use parent i x used → ∀ d ∈ used, ∃ v inside, d = .visit v inside) :
    ∀ d ∈ ds, d.isDraw ∨ ∃ v inside, d = .visit v inside := by
  induction h with
  | enough | exhausted => exact fun _ => nofun
  | failed =>
    intro d member
    rw [List.mem_singleton.mp member]
    exact .inl rfl
  | taken _ _ _ use _ ih =>
    intro d member
    rcases List.mem_cons.mp member with rfl | member
    · exact .inl rfl
    · rcases List.mem_append.mp member with used | later
      · exact .inr (uses _ _ _ use d used)
      · exact ih uses d later

theorem Spent.letGo {stream : Stream σ ν α} (h : Spent limit Use ds drawn parent stream xs)
    (uses : ∀ i x used, Use parent i x used → ∀ d ∈ used, ∃ v inside, d = .visit v inside)
    (reported : ∀ p ∈ visits ds, p.1.leaving = .ended ∧ Reported p.2) : LetGo stream ds := by
  cases h with
  | closed taken =>
    refine .behind fun d member => ?_
    rcases taken.draws_or_visits uses d member with draw | ⟨v, inside, rfl⟩
    · exact .inl draw
    · exact .inr ⟨v, inside, rfl, reported (v, inside) (visit_mem_visits (List.mem_append_left _ member))⟩

theorem Invoked.visits_only {t : Template σ ν} {x : TemplateInvocation (Extension σ ν)}
    (h : Invoked t parent index x ds) : ∀ d ∈ ds, ∃ v inside, d = .visit v inside := by
  unfold Invoked at h
  split at h
  · obtain ⟨v, inside, rfl, _⟩ := h
    exact fun d member => ⟨v, inside, List.mem_singleton.mp member⟩
  · rw [h]
    exact fun _ => nofun

theorem Made.visits_only {node : DynamicNode σ ν} (h : Made parent index node ds) :
    ∀ d ∈ ds, ∃ v inside, d = .visit v inside := by
  cases h with
  | test | container => exact fun d member => ⟨_, _, List.mem_singleton.mp member⟩

end

theorem Enacts.asked {name : String} {p : InvocationProvider σ ν (Extension σ ν)} {inside : List (Act ν)}
    {outcome : Except Fault (Stream σ ν (TemplateInvocation (Extension σ ν)))}
    (h : Enacts env (place :: path) (obtain name p).run outcome
      (Act.entriesAll place.descriptor.id [.step (.provide name) inside (faultOf outcome)])) :
    Asked env path place name p inside outcome := by
  obtain ⟨w, w', there, goes, told⟩ := h
  have first : w.currentId = place.descriptor.id := by rw [World.currentId_eq, there]; rfl
  unfold obtain at goes
  rw [Engine.goes_step, ExceptT.run_mk, Engine.goes_bind] at goes
  let began := w.mark (.provide name) .began
  rcases asked : (perform p.provide).run.goes env began with ⟨halt | provided, u⟩
  · rw [asked] at goes
    cases goes
  · obtain ⟨phase, rfl, rfl⟩ : ∃ phase, w' = u.mark (.provide name) phase ∧
        outcome = provided.mapError fun fault => .error (notObtained name fault.toError) := by
      rw [asked] at goes
      cases provided <;> cases goes <;> exact ⟨_, rfl, rfl⟩
    refine .provides (w := began) there asked ?_ fun _ _ same => ArgumentSource.provides same asked
    rw [World.trace_mark] at told ⊢
    simp only [Act.entriesAll, Act.entries, first, List.append_nil] at told ⊢
    have told := told.trans (List.append_cons _ _ _)
    rw [← List.append_assoc] at told
    exact (List.append_inj' told rfl).1

theorem Supplied.served {t : Template σ ν} {ps : List (String × InvocationProvider σ ν (Extension σ ν))}
    {xs : List (TemplateInvocation (Extension σ ν))} (h : Supplied env path place t drawn ps ds xs)
    (reported : ∀ p ∈ visits ds, p.1.leaving = .ended ∧ Reported p.2) :
    ∃ served blocks, served <+: ps ∧ ds = blocks.flatten ∧ List.Forall₂ (Served env path place) served blocks := by
  induction h with
  | all => exact ⟨[], [], List.nil_prefix, rfl, .nil⟩
  | @refused name p _ _ ps _ enacts =>
    exact ⟨[(name, p)], [_], by simp, (List.append_nil _).symm, .cons (.refused enacts.asked) .nil⟩
  | @stopped name p _ _ _ _ _ ps enacts spent _ =>
    have letGo := spent.letGo (fun _ _ _ => Invoked.visits_only) reported
    exact ⟨[(name, p)], [_], by simp, (List.append_nil _).symm, .cons (.served enacts.asked letGo) .nil⟩
  | further enacts spent _ _ ih =>
    obtain ⟨served, blocks, among, rfl, each⟩ := ih fun p member => reported p (by simp [member])
    have letGo := spent.letGo (fun _ _ _ => Invoked.visits_only) fun p member => reported p (by simp [member])
    exact ⟨_ :: served, _ :: blocks, by simpa using among, rfl, .cons (.served enacts.asked letGo) each⟩

/-- The body of a factory: the stream that its method makes is let go, with the streams of the containers among
its nodes. -/
inductive FactoryServed (env : Environment σ ν) (path : List (Place σ ν)) (place : Place σ ν)
    (f : Factory σ ν) : List (Deed σ ν) → Prop where
  | failed : Enacts env (place :: path) (invoke f.method inst).run (.error fault)
        (Act.entriesAll place.descriptor.id inside) →
      FactoryServed env path place f [.act (.step (.body f.method.name (inst.map (·.number))) inside (some fault))]
  | served : Enacts env (place :: path) (invoke f.method inst).run (.ok stream)
        (Act.entriesAll place.descriptor.id inside) →
      Spent none Made uses 0 place.descriptor stream nodes → LetGo stream uses →
      FactoryServed env path place f
        (.act (.step (.body f.method.name (inst.map (·.number))) inside none) :: uses ++
          [.act (.step .check [] fault)])

theorem FactoryExpansion.served {f : Factory σ ν} (h : FactoryExpansion env path place f ds)
    (reported : ∀ p ∈ visits ds, p.1.leaving = .ended ∧ Reported p.2) : FactoryServed env path place f ds := by
  cases h with
  | failed enacts => exact .failed enacts
  | spent enacts spent =>
    have made := spent.mono fun _ _ _ => Ran.made
    refine .served enacts made (made.letGo (fun _ _ _ => Made.visits_only) fun p member => reported p ?_)
    simp [member]

/-- The acts of a template around its streams: providers are asked for their support, and something is checked. -/
def Act.isAround : Act ν → Bool
  | .step (.supports _) _ _ | .step .check _ _ => true
  | _ => false

/-- The node comes to its end, and before it is finished the streams that it is given are let go. -/
structure StreamsClosed (env : Environment σ ν) (path : List (Place σ ν)) (v : Visit σ ν)
    (inside : List (Deed σ ν)) : Prop where
  ended : v.leaving = .ended
  reported : Reported inside
  /-- The providers of a template are served one behind the other. -/
  template : ∀ t rest, v.descriptor.role = .template t → Entered inside rest →
    ∃ (before : List (Act ν)) (served : List (String × InvocationProvider σ ν (Extension σ ν)))
      (blocks : List (List (Deed σ ν))) (after : List (Act ν)) (ending : List (Deed σ ν)),
      rest = before.map .act ++ blocks.flatten ++ after.map .act ++ ending ∧
      (∀ a ∈ before ++ after, a.isAround) ∧ served.Sublist v.place.registry.providers ∧
      List.Forall₂ (Served env path v.place) served blocks ∧ Finish v.place ending
  factory : ∀ f rest, v.descriptor.role = .factory f → Entered inside rest →
    ∃ p ending, rest = p.deeds ++ ending ∧
      LeafOrder v.place.registry (FactoryServed env path v.place f) p ∧ Finish v.place ending
  /-- A container that is drawn has a stream of its own. -/
  container : v.manner = .made → v.descriptor.kind = .container →
    ∃ children nodes course ending, inside = .report .started :: course ++ ending ∧
      Spent none Made course 0 v.descriptor children nodes ∧ LetGo children course ∧ Finish v.place ending

theorem TemplateExpansion.served {t : Template σ ν} (h : TemplateExpansion env path place t ds)
    (reported : ∀ p ∈ visits ds, p.1.leaving = .ended ∧ Reported p.2) :
    ∃ (before : List (Act ν)) (served : List (String × InvocationProvider σ ν (Extension σ ν)))
      (blocks : List (List (Deed σ ν))) (after : List (Act ν)),
      ds = before.map .act ++ blocks.flatten ++ after.map .act ∧ (∀ a ∈ before ++ after, a.isAround) ∧
      served.Sublist place.registry.providers ∧ List.Forall₂ (Served env path place) served blocks := by
  have around {asked : List (Act ν)} (supports : SupportAsked asked) (fault : Option Fault) :
      ∀ a ∈ asked ++ [.step .check [] fault], a.isAround := by
    intro a member
    rcases List.mem_append.mp member with member | member
    · obtain ⟨name, inside, rfl⟩ := supports a member
      rfl
    · rw [List.mem_singleton.mp member]
      rfl
  cases h with
  | @unsupported asked _ supports =>
    refine ⟨asked ++ [.step .check [] (some (.error (noProvider place.descriptor.displayName)))], [], [], [],
      by simp, ?_, List.nil_sublist _, .nil⟩
    rw [List.append_nil]
    exact around supports _
  | @supplied _ asked deeds xs _ supports _ sublist supplied =>
    obtain ⟨served, blocks, first, rfl, each⟩ := supplied.served fun p member => reported p (by simp [member])
    obtain ⟨fault, last⟩ : ∃ fault, lastCheck xs t.allowZero (noInvocations place.descriptor.displayName)
      blocks.flatten = .act (.step .check [] fault) := ⟨_, rfl⟩
    refine ⟨asked ++ [.step .check [] none], served, blocks, [.step .check [] fault], by simp [last], ?_,
      first.sublist.trans sublist, each⟩
    refine List.forall_mem_append.mpr ⟨around supports none, fun a member => ?_⟩
    rw [List.mem_singleton.mp member]
    rfl

theorem FullLaw.streamsClosed {v : Visit σ ν} {inside : List (Deed σ ν)} (law : FullLaw timed env path v inside)
    (covered : Covered path v inside) (reported : ∀ p ∈ visits inside, p.1.leaving = .ended ∧ Reported p.2) :
    StreamsClosed env path v inside where
  ended := covered.ended
  reported := covered.reported
  template t rest role entered := by
    obtain ⟨course, ending, rfl, generates, finish, among⟩ := law.course covered.ended entered
    cases generates with
    | factory other _ => simp [role] at other
    | none noTemplate _ => exact absurd role (noTemplate t)
    | template same' expansion =>
      cases Role.template.inj (same'.symm.trans role)
      obtain ⟨before, served, blocks, after, rfl, around, sublist, each⟩ :=
        expansion.served fun p member => reported p (among p member)
      exact ⟨before, served, blocks, after, ending, rfl, around, sublist, each, finish⟩
  factory f rest role entered := by
    obtain ⟨course, ending, rfl, generates, finish, among⟩ := law.course covered.ended entered
    cases generates with
    | template other _ => simp [role] at other
    | none _ noFactory => exact absurd role (noFactory f)
    | @factory _ p same' order =>
      cases Role.factory.inj (same'.symm.trans role)
      refine ⟨p, ending, rfl, order.mono fun body => body.served fun q member => reported q (among q ?_), finish⟩
      simp [LeafParts.deeds, member]
  container made kind := by
    cases law.made covered.ended made with
    | test other _ => simp [kind] at other
    | container _ ran finish =>
      have spent := ran.mono fun _ _ _ => Ran.made
      refine ⟨_, _, _, _, rfl, spent, spent.letGo (fun _ _ _ => Made.visits_only) fun p member => ?_, finish⟩
      exact reported p (by simp [member])

section
variable {c : Configuration} {extensions : List (Declared σ ν)} {tree : TestTree σ ν} {user : σ}
  {run : Run σ ν}

/-- In a run on one thread that comes to its end every stream is let go by the node that it is given to. Closing it
runs its close actions, each once and in order, whatever they raise. -/
theorem streams_closed (executed : execute c extensions tree user = .ok run)
    (sequential : (Settings.ofConfiguration c).parallel = false) (ended : run.halt = none) :
    run.Always c extensions tree StreamsClosed ∧
    ∀ (α : Type) (s : Stream σ ν α) (env : Environment σ ν) (w : World σ ν),
      (closeStream s).run.goes env w = (.ok (s.release w.user).1,
        ((w.mark .closeStream .began).behind s.pending).mark .closeStream (.ended (faultOf (s.release w.user).1))) := by
  refine ⟨?_, fun _ => goes_closeStream⟩
  obtain ⟨registry, v, inside, registered, told, both⟩ := Run.always_covered executed sequential ended
  refine ⟨registry, v, inside, registered, told,
    (both.strengthen ?_).mono fun ⟨⟨law, _⟩, closed⟩ => ⟨law.toLaw, closed⟩⟩
  intro path v inside ⟨law, covered⟩ below
  refine law.streamsClosed covered fun p member => ?_
  cases below _ (mem_visits member) with
  | visit both _ => exact ⟨both.2.ended, both.2.reported⟩

/-- A factory whose stream holds a container with an error behind it, and a template with arguments from two
sources, the second of which panics. -/
def Blueprint.released : Blueprint Unit String :=
  let closing (name : String) : Action Unit String Unit := .note (name ++ " closed")
  let children : Stream Unit String (DynamicNode Unit String) :=
    { source := .listed [.ofValue (.test "inner" (.done (.ok ()))), { item := .panic .other }]
      onClose := [closing "children"] }
  let nodes : Stream Unit String (DynamicNode Unit String) :=
    { source := .listed [.ofValue (.container "outer" children), { item := .error (.failure "broke") }]
      onClose := [closing "first", closing "second"] }
  let rows : Stream Unit String (List Argument) := { source := .listed [], onClose := [closing "rows"] }
  let noop : Method Unit String Unit := { signature := { name := "sums" }, body := fun _ => .done (.ok ()) }
  .node (.engine "engine") [
    .node (.ofFactory { method := { signature := { name := "nodes" }, body := fun _ => .done (.ok nodes) } }) [],
    .node { Outline.ofTemplate { method := noop } with
      extensions := [⟨.parameterized none [.made (.done (.ok rows)), .made (.panic .other)], .default⟩] } []]

theorem streams_closed_sample : ∃ run, execute .empty [] Blueprint.released.build () = .ok run ∧
    (Settings.ofConfiguration .empty).parallel = false ∧ run.halt = none ∧
    run.notes = ["children closed", "first closed", "second closed", "rows closed"] ∧
    run.Always .empty [] Blueprint.released.build StreamsClosed := by
  obtain ⟨run, executed, checked⟩ := Blueprint.executed_of_any
    (r := execute .empty [] Blueprint.released.build ()) (p := fun run => run.halt.isNone &&
      run.notes == ["children closed", "first closed", "second closed", "rows closed"]) (by decide +kernel)
  rw [Bool.and_eq_true, Option.isNone_iff_eq_none, beq_iff_eq] at checked
  have sequential : (Settings.ofConfiguration .empty).parallel = false := by decide +kernel
  exact ⟨run, executed, sequential, checked.1, checked.2, (streams_closed executed sequential checked.1).1⟩

end

end TestEngine

import TestEngine.Proofs.Idling
import TestEngine.Proofs.Leaves
import TestEngine.Proofs.Seats

/-! Making a chain of instances: it goes on from the chain of the nearest node above that holds one, with an
instance for each class in between, every one constructed within the one before. -/
namespace TestEngine
variable {σ ν α β : Type}

/-- A constructor is invoked to make the instance with a number, within another or not. -/
structure Call where
  className : String
  number : Nat
  within : Option Nat
  deriving DecidableEq, Repr

def Call.entry (id : UniqueId) (c : Call) : Entry ν := .step id (.construction c.className c.number c.within) .began

def constructorCalls (trace : List (Entry ν)) : List Call :=
  trace.filterMap fun
    | .step _ (.construction className number within) .began => some ⟨className, number, within⟩
    | _ => none

/-- What is read off some marks only is read off a part of the trace with all of these. -/
theorem filterMap_marks {f : Entry ν → Option α} {keep : Entry ν → Bool}
    (only : ∀ e, keep e = false → f e = none) (trace : List (Entry ν)) :
    (trace.filter keep).filterMap f = trace.filterMap f := by
  rw [List.filterMap_filter]
  refine List.filterMap_congr fun e _ => ?_
  cases kept : keep e
  · exact (only e kept).symm
  · rfl

theorem constructorCalls_makings (trace : List (Entry ν)) :
    constructorCalls (trace.filter Entry.isMaking) = constructorCalls trace := by
  refine filterMap_marks (fun e making => ?_) trace
  cases e with
  | step id s phase =>
    cases s with
    | construction => cases phase <;> first | contradiction | rfl
    | _ => rfl
  | _ => rfl

/-- The calls that make instances of classes, every one within the instance made before it. -/
def linked (within : Option Nat) : List (String × Nat) → List Call
  | [] => []
  | (className, number) :: rest => ⟨className, number, within⟩ :: linked (some number) rest

theorem linked_numbers (within : Option Nat) (made : List (String × Nat)) :
    (linked within made).map (·.number) = made.map (·.2) := by
  induction made generalizing within with
  | nil => rfl
  | cons m rest ih => rw [linked, List.map_cons, List.map_cons, ih]

def Level.tag (l : Level) : String × Nat := (l.className, l.inst.number)

def innermost (chain : List Level) : Option Nat := chain.getLast?.map (·.inst.number)

/-- A chain is begun to be extended by an instance of each class. -/
def Begins (chain : List Level) (classes : List (TestClass σ ν)) (calls : List Call) : Prop :=
  ∃ made, made.map (·.1) <+: classes.map (·.name) ∧ calls = linked (innermost chain) made

/-- A chain is extended by an instance of each class. -/
def Extends (chain : List Level) (classes : List (TestClass σ ν)) (longer : List Level) (calls : List Call) :
    Prop :=
  ∃ fresh, longer = chain ++ fresh ∧ fresh.map (·.className) = classes.map (·.name) ∧
    calls = linked (innermost chain) (fresh.map (·.tag))

/-- Code of the node with an identifier that only makes such calls, with what is true of them where it has a
value, and where the run is broken off. -/
def Constructs (id : UniqueId) (m : Engine σ ν α) (S : α → List Call → Prop) (E : List Call → Prop) : Prop :=
  ∀ env (w : World σ ν), w.currentId = id → ∃ calls : List Call,
    (m.goes env w).2.frames.map Frame.stand = w.frames.map Frame.stand ∧
    w.Tells (m.goes env w).2 (calls.map (Call.entry id)) [] [] (calls.map (·.number)) ∧
    Ends S (fun h calls => Calm h calls ∧ E calls) (m.goes env w).1 calls

theorem World.currentId_congr {w w' : World σ ν} (same : w'.frames.map Frame.stand = w.frames.map Frame.stand) :
    w'.currentId = w.currentId := by
  rw [currentId_eq, currentId_eq, sites_congr same]

namespace Constructs
variable {id : UniqueId} {m : Engine σ ν α} {k : α → Engine σ ν β} {S : α → List Call → Prop}
  {R : β → List Call → Prop} {E F : List Call → Prop}

theorem idle (h : Idle m) (ended : ∀ a, S a []) (broken : E []) : Constructs id m S E := by
  intro env w _
  have ⟨idles, calm⟩ := h env w
  refine ⟨[], idles.stands, idles.toTells, ?_⟩
  cases outcome : (m.goes env w).1 with
  | error halted => exact ⟨fun payload same => calm payload (outcome.trans (congrArg _ same)), broken⟩
  | ok a => exact ended a

theorem bind (first : Constructs id m S E)
    (second : ∀ a calls, S a calls → Constructs id (k a) (fun b more => R b (calls ++ more))
      fun more => F (calls ++ more))
    (broken : ∀ calls, E calls → F calls) : Constructs id (m >>= k) R F := by
  intro env w here
  obtain ⟨calls, stands, tells, ends⟩ := first env w here
  rw [Engine.goes_bind]
  rcases outcome : m.goes env w with ⟨h | a, w'⟩ <;> simp only [outcome] at stands tells ends ⊢
  · exact ⟨calls, stands, tells, ends.1, broken _ ends.2⟩
  · obtain ⟨more, stands', tells', ends'⟩ :=
      second a calls ends env w' ((World.currentId_congr stands).trans here)
    refine ⟨calls ++ more, stands'.trans stands, ?_, ?_⟩
    · simpa using tells.trans tells'
    · cases ended : ((k a).goes env w').1 <;> rw [ended] at ends' <;> exact ends'

theorem pure {a : α} (holds : S a []) : Constructs id (Pure.pure a : Engine σ ν α) S E := fun _ w _ =>
  ⟨[], rfl, (World.Idles.refl w).toTells, holds⟩

theorem attempt_bind {m : Attempt σ ν α} {k : α → Attempt σ ν β} {S : Except Fault α → List Call → Prop}
    {R : Except Fault β → List Call → Prop} (first : Constructs id m.run S E)
    (second : ∀ a calls, S (.ok a) calls → Constructs id (k a).run (fun b more => R b (calls ++ more))
      fun more => F (calls ++ more))
    (faulty : ∀ f calls, S (.error f) calls → R (.error f) calls)
    (broken : ∀ calls, E calls → F calls) : Constructs id (m >>= k).run R F := by
  rw [ExceptT.run_bind]
  refine first.bind (fun outcome calls holds => ?_) broken
  cases outcome with
  | ok a => exact second a calls holds
  | error f => exact .pure (by simpa using faulty f calls holds)

theorem mono {R : α → List Call → Prop} (h : Constructs id m S E) (ended : ∀ a calls, S a calls → R a calls)
    (broken : ∀ calls, E calls → F calls) : Constructs id m R F := by
  intro env w here
  obtain ⟨calls, stands, tells, ends⟩ := h env w here
  refine ⟨calls, stands, tells, ?_⟩
  cases outcome : (m.goes env w).1 <;> rw [outcome] at ends
  · exact ⟨ends.1, broken _ ends.2⟩
  · exact ended _ _ ends

/-- In front of code that calls constructors there may be code that does not. -/
theorem idle_bind {m : Attempt σ ν α} {k : α → Attempt σ ν β} {R : Except Fault β → List Call → Prop}
    (first : Idle m.run) (second : ∀ a, Constructs id (k a).run R E) (faulty : ∀ f, R (.error f) [])
    (broken : E []) : Constructs id (m >>= k).run R E := by
  refine attempt_bind (S := fun _ calls => calls = []) (E := fun calls => calls = [])
    (.idle first (fun _ => rfl) rfl) ?_ ?_ ?_
  · rintro a _ rfl
    exact second a
  · rintro f _ rfl
    exact faulty f
  · rintro _ rfl
    exact broken

end Constructs

namespace Execution

/-- The step of a construction calls one constructor, for the instance with the number given out for it. -/
theorem constructs_numbered (id : UniqueId) (className : String) (within : Option Nat)
    {code : Attempt σ ν α} (idle : Idle code.run) :
    Constructs id (do
        let number ← ExceptT.lift Engine.freshNumber
        let content ← Engine.step (.construction className number within) code
        return (number, content) : Attempt σ ν (Nat × α)).run
      (fun outcome calls => ∃ number, calls = [⟨className, number, within⟩] ∧
        ∀ made, outcome = .ok made → made.1 = number)
      fun calls => ∃ number, calls = [⟨className, number, within⟩] := by
  intro env w here
  let s : Step := .construction className w.nextNumber within
  let w1 : World σ ν := { w with nextNumber := w.nextNumber + 1 }
  have ⟨idles, calm⟩ := idle env (w1.mark s .began)
  rcases ran : code.run.goes env (w1.mark s .began) with ⟨outcome, w2⟩
  rw [ran] at idles calm
  have goes : (do
      let number ← ExceptT.lift Engine.freshNumber
      let content ← Engine.step (.construction className number within) code
      return (number, content) : Attempt σ ν (Nat × α)).run.goes env w =
        ((Except.map (Except.map (w.nextNumber, ·))) outcome, w2.mark s (.ofOutcome outcome)) := by
    show (Engine.step s code >>= fun content => return (w.nextNumber, content)).run.goes env w1 = _
    rw [ExceptT.run_bind, Engine.goes_bind, Engine.goes_step, ran]
    rcases outcome with _ | _ | _ <;> rfl
  have here : (w1.mark s .began).currentId = id := here
  have began : w1.Tells (w1.mark s .began) [.step id s .began] [] [] [] := here ▸ .mark w1 s .began
  have ended : w2.Tells (w2.mark s (.ofOutcome outcome)) [] [] [] [] := by
    have mark := World.Tells.mark w2 s (.ofOutcome outcome)
    rcases outcome with _ | _ | _ <;> exact mark
  have tells := (began.trans idles.toTells).trans ended
  have next : w.nextNumber + 1 ≤ (w2.mark s (.ofOutcome outcome)).nextNumber := tells.next
  rw [goes]
  refine ⟨[⟨className, w.nextNumber, within⟩], idles.stands,
    ⟨tells.trace, tells.makings, tells.hooks, tells.farewells, Nat.le_of_succ_le next, ?_,
      List.pairwise_singleton _ _⟩, ?_⟩
  · intro n member
    obtain rfl : n = w.nextNumber := by simpa using member
    exact ⟨Nat.le_refl _, next⟩
  · rcases outcome with _ | _ | _
    · exact ⟨fun payload same => calm payload (congrArg Except.error same), _, rfl⟩
    · exact ⟨_, rfl, nofun⟩
    · refine ⟨_, rfl, fun made same => ?_⟩
      cases Except.ok.inj same
      rfl

/-- One constructor is called, for the instance with the next number. -/
theorem constructs_construct (id : UniqueId) (c : TestClass σ ν) (within : Option TestInstance) :
    Constructs id (construct c within).run
      (fun outcome calls => ∃ number, calls = [⟨c.name, number, within.map (·.number)⟩] ∧
        ∀ inst, outcome = .ok inst → inst.number = number)
      fun calls => ∃ number, calls = [⟨c.name, number, within.map (·.number)⟩] := by
  have same : construct c within = (do
      let number ← ExceptT.lift Engine.freshNumber
      let content ← Engine.step (.construction c.name number (within.map (·.number)))
        (invoke c.constructor within)
      return (number, content)) >>= fun made => do
        let inst : TestInstance := ⟨made.1, made.2⟩
        postProcess inst (← ExceptT.lift (Engine.extensions .instancePostProcessor))
        return inst := by
    simp only [construct, bind_assoc, pure_bind]
  rw [same]
  refine (constructs_numbered id c.name _ ((Idle.regime σ ν).invoke _ _)).attempt_bind ?_ ?_ fun _ called => called
  · rintro ⟨number, content⟩ calls ⟨n, rfl, numbered⟩
    cases numbered _ rfl
    have faulty (f : Fault) : ∃ n, [⟨c.name, number, within.map (·.number)⟩] ++ [] =
        [(⟨c.name, n, within.map (·.number)⟩ : Call)] ∧
        ∀ inst : TestInstance, .error f = Except.ok inst → inst.number = n := ⟨number, rfl, nofun⟩
    refine .idle_bind (.lift ((Idle.regime σ ν).extensions _)) (fun es => ?_) faulty ⟨number, rfl⟩
    refine .idle_bind ((Idle.regime σ ν).postProcess _ _) (fun _ => .pure ⟨number, rfl, fun inst same => ?_⟩) faulty
      ⟨number, rfl⟩
    cases Except.ok.inj same
    rfl
  · rintro f calls ⟨n, rfl, _⟩
    exact ⟨n, rfl, nofun⟩

theorem constructs_constructAll (id : UniqueId) (chain : List Level) (classes : List (TestClass σ ν)) :
    Constructs id (constructAll chain classes).run
      (fun outcome calls => Begins chain classes calls ∧
        ∀ longer, outcome = .ok longer → Extends chain classes longer calls)
      (Begins chain classes) := by
  induction classes generalizing chain with
  | nil =>
    refine .pure ⟨⟨[], by simp, rfl⟩, fun longer same => ?_⟩
    cases Except.ok.inj same
    exact ⟨[], by simp, rfl, rfl⟩
  | cons c cs ih =>
    have within : (chain.getLast?.map (·.inst)).map (·.number) = innermost chain :=
      Option.map_map _ _ _
    have called (number : Nat) : Begins chain (c :: cs) [⟨c.name, number, innermost chain⟩] :=
      ⟨[(c.name, number)], by simp, rfl⟩
    have innermost_made (inst : TestInstance) : innermost (chain ++ [⟨c.name, inst⟩]) = some inst.number := by
      simp [innermost]
    have more (inst : TestInstance) {calls : List Call} (begins : Begins (chain ++ [⟨c.name, inst⟩]) cs calls) :
        Begins chain (c :: cs) ([⟨c.name, inst.number, innermost chain⟩] ++ calls) := by
      obtain ⟨made, names, rfl⟩ := begins
      exact ⟨(c.name, inst.number) :: made, by simpa using names, by simp [linked, innermost_made]⟩
    have first := constructs_construct id c (chain.getLast?.map (·.inst))
    rw [within] at first
    refine first.attempt_bind ?_ ?_ ?_
    · rintro inst _ ⟨number, rfl, same⟩
      cases same inst rfl
      refine (ih (chain ++ [⟨c.name, inst⟩])).mono ?_ fun calls => more inst
      rintro outcome calls ⟨begins, whole⟩
      refine ⟨more inst begins, fun longer same => ?_⟩
      obtain ⟨fresh, rfl, names, rfl⟩ := whole longer same
      exact ⟨⟨c.name, inst⟩ :: fresh, by simp, by simp [names], by simp [linked, innermost_made, Level.tag]⟩
    · rintro f _ ⟨number, rfl, _⟩
      exact ⟨called number, nofun⟩
    · rintro _ ⟨number, rfl⟩
      exact called number

end Execution

/-- A node makes a chain, with the calls of constructors for it. Where the chain cannot be made the node holds
none. -/
structure Making (σ ν : Type) where
  seat : Seat σ ν
  above : List (Seat σ ν)
  calls : List Call

namespace Making

def entries (m : Making σ ν) : List (Entry ν) :=
  m.calls.map (Call.entry m.seat.descriptor.id) ++
    if m.seat.chain.isSome then [.step m.seat.descriptor.id .instantiation (.ended none)] else []

def numbers (m : Making σ ν) : List Nat := m.calls.map (·.number)

theorem calls_entries (m : Making σ ν) : constructorCalls m.entries = m.calls := by
  have calls : constructorCalls (ν := ν) (m.calls.map (Call.entry m.seat.descriptor.id)) = m.calls := by
    simp [constructorCalls, List.filterMap_map, Function.comp_def, Call.entry]
  rw [entries, constructorCalls, List.filterMap_append, ← constructorCalls, calls]
  cases m.seat.chain.isSome <;> simp

/-- The classes that an instance is made of: those below the nearest node above that holds a chain. -/
def classes (m : Making σ ν) : List (TestClass σ ν) := missing m.above ++ m.seat.descriptor.testClass?.toList

/-- The calls are those for the classes, each within the instance before, and the chain is the inherited one
with the instances that they make. -/
structure Linked (m : Making σ ν) : Prop where
  begins : Begins (inherited m.above) m.classes m.calls
  whole : ∀ chain, m.seat.chain = some chain → Extends (inherited m.above) m.classes chain m.calls

def fresh (m : Making σ ν) : List Level := (m.seat.chain.getD []).drop (inherited m.above).length

theorem fresh_broken {m : Making σ ν} (broken : m.seat.chain = none) : m.fresh = [] := by
  rw [fresh, broken]
  exact List.drop_nil

/-- From the world the instances are made, at the node, where it comes to hold the chain. -/
def At (env : Environment σ ν) (w : World σ ν) (m : Making σ ν) : Prop :=
  w.StandsAt (m.seat.holding none :: m.above) ∧
    (Execution.instantiate.run.goes env w).2.StandsAt (m.seat :: m.above)

end Making

/-- The chain that a node is given is held there. -/
theorem World.StandsAt.given {w : World σ ν} {s : Seat σ ν} {above : List (Seat σ ν)}
    (there : w.StandsAt (s :: above)) (chain : List Level) (env : Environment σ ν) :
    let given := ((Engine.modifyTop fun f => { f with instances := some chain }).goes env w).2
    given.StandsAt (s.holding (some chain) :: above) ∧ w.Tells given [] [] [] [] := by
  cases w with
  | mk frames trace =>
    cases frames with
    | nil => contradiction
    | cons f frames =>
      obtain ⟨same, rest⟩ := List.cons.inj there
      have site : f.site = s.toSite := congrArg Prod.fst same
      constructor
      · exact List.cons_eq_cons.mpr ⟨congrArg (·, some chain) site, rest⟩
      · exact World.Tells.silent rfl (Nat.le_refl _)

/-- Extends a chain by an instance of each class, and gives the node the run is at what comes of it. -/
def Execution.give (classes : List (TestClass σ ν)) (chain : List Level) : Attempt σ ν (List Level) := do
  let longer ← constructAll chain classes
  ExceptT.lift (Engine.modifyTop fun f => { f with instances := some longer })
  return longer.drop chain.length

/-- What a node holds that was to extend a chain, and the levels that it answers. -/
def Holds (chain : List Level) (held : Option (List Level)) : Except Halt (Except Fault (List Level)) → Prop
  | .ok (.ok created) => held.isSome ∧ created = (held.getD []).drop chain.length
  | .ok (.error _) => held = none
  | .error h => held = none ∧ ∀ payload, h ≠ .panicked payload

theorem gives_constructAll (env : Environment σ ν) {w : World σ ν} {s : Seat σ ν} {above : List (Seat σ ν)}
    (there : w.StandsAt (s :: above)) (free : s.chain = none) (classes : List (TestClass σ ν))
    (chain : List Level) :
    ∃ held calls, ((Execution.give classes chain).run.goes env w).2.StandsAt (s.holding held :: above) ∧
      w.Tells ((Execution.give classes chain).run.goes env w).2 (calls.map (Call.entry s.descriptor.id)) [] []
        (calls.map (·.number)) ∧
      Begins chain classes calls ∧ (∀ longer, held = some longer → Extends chain classes longer calls) ∧
      Holds chain held ((Execution.give classes chain).run.goes env w).1 := by
  obtain ⟨calls, stands, tells, ends⟩ :=
    Execution.constructs_constructAll s.descriptor.id chain classes env w there.currentId
  have kept : ((Execution.constructAll chain classes).run.goes env w).2.StandsAt (s :: above) := stands.trans there
  have unheld : s.holding none = s := by rw [← free, Seat.holding_chain]
  rw [Execution.give, Engine.goes_attempt_bind]
  rcases outcome : (Execution.constructAll chain classes).run.goes env w with ⟨_ | fault | longer, w'⟩ <;>
    rw [outcome] at kept tells ends
  · exact ⟨none, calls, unheld ▸ kept, tells, ends.2, nofun, rfl, ends.1⟩
  · exact ⟨none, calls, unheld ▸ kept, tells, ends.1, nofun, rfl⟩
  · obtain ⟨given, silent⟩ := kept.given longer env
    have all := tells.trans silent
    simp only [List.append_nil] at all
    refine ⟨some longer, calls, given, all, ends.1, ?_, rfl, rfl⟩
    intro _ same
    cases same
    exact ends.2 longer rfl

/-- A node that holds no chain makes one. -/
theorem makes_instantiate (env : Environment σ ν) {w : World σ ν} {s : Seat σ ν} {above : List (Seat σ ν)}
    (there : w.StandsAt (s :: above)) (free : s.chain = none) :
    ∃ m : Making σ ν, m.seat.holding none = s ∧ m.above = above ∧ m.At env w ∧ m.Linked ∧
      w.Tells (Execution.instantiate.run.goes env w).2 m.entries [] [] m.numbers ∧
      Holds (inherited m.above) m.seat.chain (Execution.instantiate.run.goes env w).1 := by
  let w1 := w.mark .instantiation .began
  let gone := (Execution.give (missing (s :: above)) (inherited (s :: above))).run.goes env w1
  have same : Execution.instantiate.run.goes env w = (gone.1, gone.2.mark .instantiation (.ofOutcome gone.1)) := by
    have pending := pending_eq there
    show (let g := (Execution.give (Execution.pending w.frames).1 (Execution.pending w.frames).2).run.goes env w1;
      (g.1, g.2.mark .instantiation (.ofOutcome g.1))) = _
    rw [pending]
  obtain ⟨held, calls, stands, tells, begins, whole, holds⟩ := gives_constructAll env (w := w1) there free
    (missing (s :: above)) (inherited (s :: above))
  change Holds (inherited (s :: above)) held gone.1 at holds
  rw [inherited_none free] at begins whole holds
  rw [missing_none free] at begins whole
  have unheld : s.holding none = s := by rw [← free, Seat.holding_chain]
  have id : gone.2.currentId = s.descriptor.id := stands.currentId
  have began : w.Tells w1 [] [] [] [] := .mark w .instantiation .began
  have ended : gone.2.Tells (gone.2.mark .instantiation (.ofOutcome gone.1))
      (if held.isSome then [.step s.descriptor.id .instantiation (.ended none)] else []) [] [] [] := by
    have mark := World.Tells.mark gone.2 .instantiation (.ofOutcome gone.1)
    rw [id] at mark
    rcases outcome : gone.1 with h | fault | created <;> rw [outcome] at holds mark
    · obtain ⟨rfl, _⟩ := holds
      exact mark
    · cases holds
      exact mark
    · rw [if_pos holds.1]
      exact mark
  refine ⟨⟨s.holding held, above, calls⟩, unheld, rfl, ⟨?_, same ▸ stands⟩, ⟨begins, whole⟩, ?_, same ▸ holds⟩
  · show w.StandsAt (s.holding none :: above)
    rwa [unheld]
  · have all := (began.trans tells).trans ended
    simp only [List.nil_append, List.append_nil] at all
    rw [same]
    exact all

/-- Of a step around code that has no part in the life of instances only the beginning tells of them. -/
theorem Idle.tells_step {code : Attempt σ ν α} (idle : Idle code.run) {s : Step} (other : s ≠ .instantiation)
    (env : Environment σ ν) (w : World σ ν) :
    let began : List (Entry ν) := [.step w.currentId s .began]
    let reached := (Engine.step s code).run.goes env w
    reached.2.frames.map Frame.stand = w.frames.map Frame.stand ∧
      w.Tells reached.2 (began.filter Entry.isMaking) (began.filter Entry.isHook) (began.filter Entry.isFarewell) [] ∧
      ∀ payload, reached.1 ≠ .error (.panicked payload) := by
  have ⟨idles, calm⟩ := idle env (w.mark s .began)
  rw [Engine.goes_step]
  rcases ran : code.run.goes env (w.mark s .began) with ⟨outcome, w'⟩
  rw [ran] at idles calm
  have ended : w'.Tells (w'.mark s (.ofOutcome outcome)) [] [] [] [] := by
    have mark := World.Tells.mark w' s (.ofOutcome outcome)
    rcases outcome with _ | _ | _ <;> cases s <;> first | exact absurd rfl other | exact mark
  have all := ((World.Tells.mark w s .began).trans idles.toTells).trans ended
  simp only [List.append_nil] at all
  exact ⟨idles.stands, all, calm⟩

/-- The marks of showing levels to the pre-destroy callbacks of a node, the innermost first. -/
def Seat.farewells (s : Seat σ ν) (created : List Level) : List (Entry ν) :=
  created.reverse.flatMap fun level => (s.registry.extensions .instancePreDestroy).map fun e =>
    .step s.descriptor.id (.preDestroy e.name level.inst.number) .began

/-- At a path, code only leaves these marks of farewells, unless the run is broken off. -/
def Shows (seats : List (Seat σ ν)) (m : Engine σ ν α) (es : List (Entry ν)) : Prop :=
  ∀ env (w : World σ ν), w.StandsAt seats → ∃ shown, (m.goes env w).2.StandsAt seats ∧
    w.Tells (m.goes env w).2 [] [] shown [] ∧ Ends (fun _ xs => xs = es) Calm (m.goes env w).1 shown

/-- The extensions of the node the run is at are read. -/
theorem World.StandsAt.extensions {w : World σ ν} {s : Seat σ ν} {above : List (Seat σ ν)}
    (there : w.StandsAt (s :: above)) (env : Environment σ ν) (capability : Capability) :
    (Engine.extensions capability).goes env w = (.ok (s.registry.extensions capability), w) := by
  have registry : (w.frames.head?.map (·.registry.extensions capability)).getD [] =
      s.registry.extensions capability := by
    unfold World.StandsAt at there
    cases frames : w.frames with
    | nil => simp [frames] at there
    | cons f rest =>
      rw [frames] at there
      exact congrArg (·.1.registry.extensions capability) (List.cons.inj there).1
  rw [← registry]
  rfl

namespace Shows
variable {seats : List (Seat σ ν)} {m : Engine σ ν α} {k : α → Engine σ ν β} {es fs : List (Entry ν)}

theorem idle (h : Idle m) : Shows seats m [] := by
  intro env w there
  have ⟨idles, calm⟩ := h env w
  refine ⟨[], idles.stands.trans there, idles.toTells, ?_⟩
  cases outcome : (m.goes env w).1 with
  | error halted => exact fun payload same => calm payload (outcome.trans (congrArg _ same))
  | ok a => rfl

theorem bind (first : Shows seats m es) (second : ∀ a, Shows seats (k a) fs) : Shows seats (m >>= k) (es ++ fs) := by
  intro env w there
  obtain ⟨shown, stands, tells, ends⟩ := first env w there
  rw [Engine.goes_bind]
  rcases outcome : m.goes env w with ⟨h | a, w'⟩ <;> rw [outcome] at stands tells ends
  · exact ⟨shown, stands, tells, ends⟩
  · obtain ⟨more, stands', tells', ends'⟩ := second a env w' stands
    refine ⟨shown ++ more, stands', tells.trans tells', ?_⟩
    cases ends
    cases ended : ((k a).goes env w').1 <;> rw [ended] at ends'
    · exact ends'
    · exact congrArg (es ++ ·) ends'

theorem extensions_bind {s : Seat σ ν} {above : List (Seat σ ν)} {capability : Capability}
    {k : List (Extension σ ν) → Engine σ ν β} (h : Shows (s :: above) (k (s.registry.extensions capability)) es) :
    Shows (s :: above) (Engine.extensions capability >>= k) es := by
  intro env w there
  rw [Engine.goes_bind, there.extensions]
  exact h env w there

theorem step {s : Seat σ ν} {above : List (Seat σ ν)} {code : Attempt σ ν α} (idle : Idle code.run)
    (extension : String) (number : Nat) :
    Shows (s :: above) (Engine.step (.preDestroy extension number) code).run
      [.step s.descriptor.id (.preDestroy extension number) .began] := by
  intro env w there
  obtain ⟨stands, tells, calm⟩ := idle.tells_step (s := .preDestroy extension number) nofun env w
  rw [there.currentId] at tells
  refine ⟨_, stands.trans there, tells, ?_⟩
  cases outcome : ((Engine.step (.preDestroy extension number) code).run.goes env w).1 with
  | error h => exact fun payload same => calm payload (outcome.trans (congrArg _ same))
  | ok => rfl

theorem collectAll {codes : List (Attempt σ ν Unit)}
    (h : List.Forall₂ (fun e code => Shows seats code.run [e]) es codes) (c : Collector) :
    Shows seats (Execution.collectAll c codes) es := by
  induction h generalizing c with
  | nil => exact .idle (.pure c)
  | @cons e code es codes first _ ih =>
    have collected : Shows seats (Execution.collect c code) ([e] ++ []) := first.bind fun _ => .idle (.pure _)
    exact collected.bind ih

end Shows

def Making.farewells (m : Making σ ν) : List (Entry ν) := m.seat.farewells m.fresh

/-- All levels are shown to all callbacks, whatever these raise. -/
theorem shows_destroy (s : Seat σ ν) (above : List (Seat σ ν)) (created : List Level) :
    Shows (s :: above) (Execution.destroy created).run (s.farewells created) := by
  have shows (level : Level) : List.Forall₂ (fun e code => Shows (s :: above) code.run [e])
      ((s.registry.extensions .instancePreDestroy).map fun e =>
        .step s.descriptor.id (.preDestroy e.name level.inst.number) .began)
      (Execution.farewells level (s.registry.extensions .instancePreDestroy)) := by
    refine Execution.forall₂_filterMap fun e member => ?_
    obtain ⟨callback, same⟩ := Option.isSome_iff_exists.mp (Registry.has_of_mem member)
    rw [same]
    exact ⟨_, rfl, .step ((Idle.regime σ ν).occupying _ ((Idle.regime σ ν).perform _)) _ _⟩
  have all : List.Forall₂ (fun e code => Shows (s :: above) code.run [e]) (s.farewells created)
      (created.reverse.flatMap fun level => Execution.farewells level (s.registry.extensions .instancePreDestroy)) :=
    Execution.forall₂_flatMap fun level _ => shows level
  rw [Execution.destroy, ExceptT.run_bind_lift]
  refine .extensions_bind ?_
  rw [ExceptT.run_bind_lift]
  have raised := (Shows.collectAll all .empty).bind fun c => .idle ((Idle.regime σ ν).raising c.primary)
  rw [List.append_nil] at raised
  exact raised

theorem shows_collect_destroy (s : Seat σ ν) (above : List (Seat σ ν)) (created : List Level) (c : Collector) :
    Shows (s :: above) (do return (← Execution.collect c (Execution.destroy created)).toResult)
      (s.farewells created) := by
  have collects : Shows (s :: above) (Execution.collect c (Execution.destroy created)) (s.farewells created ++ []) :=
    (shows_destroy s above created).bind fun outcome => .idle (.pure (c.record outcome))
  have results := collects.bind fun c => .idle (.pure c.toResult)
  rw [List.append_nil, List.append_nil] at results
  exact results

end TestEngine

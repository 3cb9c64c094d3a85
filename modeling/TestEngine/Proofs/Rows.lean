import TestEngine.Proofs.Closings
import TestEngine.Proofs.Coupling
import TestEngine.Proofs.Factories
import TestEngine.Proofs.Resolving

/-! Parameterized tests. A template that is served by nothing else is invoked once for each row of the sources, in the
order of the rows, and each invocation is given the values of its own row. -/
namespace TestEngine
variable {σ ν α β : Type}

open Deed Execution

namespace Source
variable {s : Source σ ν α} {xs ys : List α} {error : Option TestError}

def at? : Source σ ν α → Nat → Option (Except Fault α)
  | .listed draws, i => draws[i]?.map (·.item.outcome)
  | .endless draw, i => some (draw i).item.outcome

theorem next?_eq_none (h : s.at? 0 = none) : s.next? = none := by
  cases s with
  | listed draws => cases draws <;> simp_all [at?, next?]
  | endless draw => contradiction

theorem at?_of_next?_eq_none (h : s.next? = none) : s.at? 0 = none := by
  cases s with
  | listed draws => cases draws <;> simp_all [at?, next?]
  | endless draw => contradiction

theorem at?_of_next? (h : s.next? = some (d, rest)) :
    s.at? 0 = some d.item.outcome ∧ ∀ i, rest.at? i = s.at? (i + 1) := by
  cases s with
  | listed draws =>
    cases draws with
    | nil => contradiction
    | cons =>
      cases h
      exact ⟨rfl, fun _ => rfl⟩
  | endless draw =>
    cases h
    exact ⟨rfl, fun _ => rfl⟩

theorem next?_of_at? {o : Except Fault α} (h : s.at? 0 = some o) :
    ∃ d rest, s.next? = some (d, rest) ∧ d.item.outcome = o := by
  cases s with
  | listed draws =>
    cases draws with
    | nil => contradiction
    | cons d rest => exact ⟨d, .listed rest, rfl, Option.some.inj h⟩
  | endless draw => exact ⟨_, _, rfl, Option.some.inj h⟩

/-- Where each draw only has its value changed, by its number, the values come from those of the source. -/
theorem Supplies.of_changed {s' : Source σ ν β} {f : Nat → α → β} {k : Nat} {ys : List β}
    (h : s'.Supplies ys error) (same : ∀ i, s'.at? i = (s.at? i).map (Except.map (f (k + i)))) :
    ∃ xs, s.Supplies xs error ∧ ys = (xs.zipIdx k).map fun x => f x.2 x.1 := by
  induction h generalizing s k with
  | all next =>
    have none : (s.at? 0).map (Except.map (f (k + 0))) = none := (same 0).symm.trans (at?_of_next?_eq_none next)
    exact ⟨[], .all (next?_eq_none (Option.map_eq_none_iff.mp none)), rfl⟩
  | @failed _ d _ fault next raised =>
    have first := (at?_of_next? next).1
    rw [same 0, raised] at first
    obtain ⟨o, here, changed⟩ := Option.map_eq_some_iff.mp first
    cases o with
    | ok => contradiction
    | error =>
      cases changed
      obtain ⟨d, rest, next, outcome⟩ := next?_of_at? here
      exact ⟨[], .failed next outcome, rfl⟩
  | @value _ d rest y ys error next value _ ih =>
    obtain ⟨first, later⟩ := at?_of_next? next
    rw [same 0, value] at first
    obtain ⟨o, here, changed⟩ := Option.map_eq_some_iff.mp first
    cases o with
    | error => contradiction
    | ok x =>
      cases changed
      obtain ⟨d', rest', next', outcome⟩ := next?_of_at? here
      obtain ⟨xs, supplies, rfl⟩ := ih (k := k + 1) (s := rest') fun i => by
        rw [later, same, (at?_of_next? next').2, Nat.add_assoc, Nat.add_comm 1 i]
      exact ⟨x :: xs, .value next' outcome supplies, rfl⟩

theorem empty_of_next? (h : s.next? = none) : s = .listed [] := by
  cases s with
  | listed draws => cases draws <;> simp_all [next?]
  | endless draw => contradiction

theorem listed_of_next? {draws : List (Draw σ ν α)} (h : s.next? = some (d, .listed draws)) :
    s = .listed (d :: draws) := by
  cases s with
  | listed all => cases all <;> simp_all [next?]
  | endless draw => simp [next?] at h

/-- Only a list comes to an end without an error. -/
theorem Supplies.listed (h : s.Supplies xs none) : ∃ draws, s = .listed draws := by
  generalize same : (none : Option TestError) = error at h
  induction h with
  | all next => exact ⟨[], empty_of_next? next⟩
  | failed => contradiction
  | value next _ _ ih =>
    obtain ⟨draws, rfl⟩ := ih same
    exact ⟨_, listed_of_next? next⟩

theorem listed_append_nil (other : Source σ ν α) : (Source.listed []).append other = other := by
  cases other with
  | listed draws => rfl
  | endless draw => rfl

theorem next?_append_cons (d : Draw σ ν α) (draws : List (Draw σ ν α)) (other : Source σ ν α) :
    ((Source.listed (d :: draws)).append other).next? = some (d, (Source.listed draws).append other) := by
  cases other with
  | listed more => rfl
  | endless draw =>
    simp only [append, next?, List.length_cons, Nat.zero_lt_succ, dite_true, List.getElem_cons_zero,
      Option.some.injEq, Prod.mk.injEq, true_and, Source.endless.injEq]
    funext i
    simp only [Nat.add_lt_add_iff_right, List.getElem_cons_succ, Nat.add_sub_add_right]

/-- One source behind another, if that has an end. -/
theorem Supplies.append {other : Source σ ν α} (h : s.Supplies xs none) (behind : other.Supplies ys error) :
    (s.append other).Supplies (xs ++ ys) error := by
  obtain ⟨draws, rfl⟩ := h.listed
  induction draws generalizing xs with
  | nil =>
    rw [listed_append_nil]
    cases h with
    | all => exact behind
    | value next => contradiction
  | cons d draws ih =>
    cases h with
    | all next => contradiction
    | value next value rest =>
      cases next
      exact .value (next?_append_cons d draws other) value (ih rest)

end Source

theorem Draw.outcome_bind (d : Draw σ ν α) (f : α → Draw σ ν β) :
    (d.bind f).item.outcome = d.item.outcome.bind fun a => (f a).item.outcome := by
  unfold Draw.bind
  cases d.item <;> rfl

/-- Streams in one, numbered from one. -/
theorem Stream.mapNumbered_at? (s : Stream σ ν α) (f : Nat → α → β) (i : Nat) :
    (s.mapNumbered f).source.at? i = (s.source.at? i).map (Except.map (f (1 + i))) := by
  rw [mapNumbered]
  cases source : s.source with
  | listed draws =>
    simp only [Source.number, Source.bind, Source.at?, List.getElem?_map, List.getElem?_mapIdx, Option.map_map]
    congr 1
    funext d
    simp only [Function.comp, Draw.outcome_bind]
    cases d.item <;> simp [Item.outcome, Except.bind, Except.map, Draw.ofValue, Nat.add_comm]
  | endless draw =>
    simp only [Source.number, Source.bind, Source.at?, Option.map_some, Draw.outcome_bind]
    cases (draw i).item <;> simp [Item.outcome, Except.bind, Except.map, Draw.ofValue, Nat.add_comm]

theorem Stream.supplies_of_mapNumbered {s : Stream σ ν α} {f : Nat → α → β} {ys : List β}
    (h : (s.mapNumbered f).remaining.Supplies ys error) :
    ∃ xs, s.source.Supplies xs error ∧ ys = (xs.zipIdx 1).map fun x => f x.2 x.1 :=
  Source.Supplies.of_changed h (s.mapNumbered_at? f)

namespace ArgumentSource
variable {env : Environment σ ν} {w w' : World σ ν} {sources : List (ArgumentSource σ ν)}
  {streams : List (Stream σ ν (List Argument))} {made stream : Stream σ ν (List Argument)}

/-- The streams of sources, one behind the other. What is left of each is there, whether that is closed or not. -/
def joined (streams : List (Stream σ ν (List Argument))) : Stream σ ν (List Argument) :=
  streams.foldl Stream.chain .empty

theorem supplies_chained {rowss : List (List (List Argument))} {xs : List (List Argument)}
    (each : List.Forall₂ (fun s rows => s.source.Supplies rows none) streams rowss)
    (before : made.source.Supplies xs none) :
    (streams.foldl Stream.chain made).source.Supplies (xs ++ rowss.flatten) none := by
  induction each generalizing made xs with
  | nil => simpa using before
  | cons here _ ih =>
    rw [List.foldl_cons, List.flatten_cons, ← List.append_assoc]
    exact ih (before.append here)

/-- Streams without errors are joined to one that holds all of their rows. -/
theorem supplies_joined {rowss : List (List (List Argument))}
    (each : List.Forall₂ (fun s rows => s.source.Supplies rows none) streams rowss) :
    (joined streams).source.Supplies rowss.flatten none := supplies_chained each (.all rfl)

theorem Opens.startAll (opens : Opens env sources w streams w') (made : Stream σ ν (List Argument)) :
    (perform (startAll made sources)).run.goes env w = (.ok (.ok (streams.foldl Stream.chain made)), w') := by
  induction opens generalizing made with
  | none => rfl
  | further started _ ih => rw [goes_startAll, started, List.foldl_cons, ← ih]

theorem startAll_ok (goes : (perform (startAll made sources)).run.goes env w = (.ok (.ok stream), w')) :
    ∃ streams, Opens env sources w streams w' ∧ stream = streams.foldl Stream.chain made := by
  induction sources generalizing made w with
  | nil =>
    cases goes
    exact ⟨[], .none, rfl⟩
  | cons s rest ih =>
    rw [goes_startAll] at goes
    rcases started : (perform s.start).run.goes env w with ⟨halt | fault | first, w₁⟩
    all_goals simp only [started] at goes
    · cases goes
    · cases goes
    · obtain ⟨streams, opens, rfl⟩ := ih goes
      exact ⟨first :: streams, .further started opens, rfl⟩

/-- At a template a parameterized test makes an invocation of each row, with a resolver for that alone. -/
theorem goes_provide (env : Environment σ ν) {f : Frame σ ν} {above : List (Frame σ ν)} {t : Template σ ν}
    {pattern : Option String} {p : InvocationProvider σ ν (Extension σ ν)} (frames : w.frames = f :: above)
    (role : f.descriptor.role = .template t)
    (same : (Extension.parameterized pattern sources).invocationProvider = some p) :
    ∃ name : Nat → List Argument → String, (perform p.provide).run.goes env w =
      match (perform (startAll .empty sources)).run.goes env w with
      | (.ok (.ok all), w') => (.ok (.ok (all.mapNumbered fun i row =>
          { displayName := name i row, extensions := [Extension.argumentsResolver t.method.name row] })), w')
      | (.ok (.error fault), w') => (.ok (.error fault), w')
      | (.error halt, w') => (.error halt, w') := by
  cases same
  let v := viewOf env.configuration w.abandoned w.frames
  have template : v.template? = some t.method.signature := by
    simp only [v, frames, viewOf, View.template?, Descriptor.node, role, Role.shape]
  let formatter := DisplayName.Formatter.configured pattern v.node.displayName v.configuration
  refine ⟨fun i row => formatter.format i row (t.method.signature.parameters.map (·.name)), ?_⟩
  rw [goes_look]
  simp only [v, template]
  rw [perform_andThen, Engine.goes_attempt_bind]
  rcases (perform (startAll .empty sources)).run.goes env w with ⟨halt | fault | all, w'⟩ <;> rfl

end ArgumentSource

section
variable {env : Environment σ ν} {path : List (Place σ ν)} {place : Place σ ν} {t : Template σ ν}
  {ds : List (Deed σ ν)}

/-- How a node runs that is given the values of a row: as a leaf, and if it comes to its body, that is called with the
values of the row, or the node fails for want of values. -/
def RunsRow (env : Environment σ ν) (path : List (Place σ ν)) (place : Place σ ν) (m : Method σ ν Unit)
    (row : List Argument) (rest : List (Deed σ ν)) : Prop :=
  ∃ p ending, rest = p.deeds ++ ending ∧ Finish place ending ∧
    LeafOrder place.registry (RowBody env path place m row) p ∧
    (raised (p.instantiation ++ p.beforeEach ++ p.beforeExecution) = [] → ¬ Fits m.parameters row →
      ∃ e, .report (.finished (.failed e)) ∈ ending ∧ e.kind = .resolution)

/-- The invocation for a row of the template, under its number. Whatever becomes of the others, it is given the values
of that row, if no other resolver of the chain supports the parameters. -/
structure RowInvoked (env : Environment σ ν) (path : List (Place σ ν)) (template : Place σ ν) (t : Template σ ν)
    (x : List Argument × Nat) (visited : Visit σ ν × List (Deed σ ν)) : Prop where
  made : ∃ name, visited.1.MadeAs (dynamicDescriptor template.descriptor "test-template-invocation" x.2 name .test
    [Extension.argumentsResolver t.method.name x.1]) .executed
  given : Parameter.Positional t.method.parameters →
    (∀ e ∈ template.registry.extensions .parameterResolver, ∀ r, e.parameterResolver = some r →
      ∀ p ∈ t.method.parameters, r.Declines env (visited.1.place :: template :: path) ⟨p, t.method.name⟩) →
    ∀ rest, Entered visited.2 rest → RunsRow env (template :: path) visited.1.place t.method x.1 rest

/-- A parameterized test is asked for invocations, and starts its sources. Their rows up to the first error are invoked,
and so all rows where there is none. -/
inductive RowsServed (env : Environment σ ν) (path : List (Place σ ν)) (template : Place σ ν) (t : Template σ ν)
    (name : String) (sources : List (ArgumentSource σ ν)) : List (Deed σ ν) → Prop where
  | refused : w.frames.map Frame.site = (template :: path).map (·.toSite) →
      (∀ streams w', ¬ ArgumentSource.Opens env sources w streams w') →
      RowsServed env path template t name sources [.act (.step (.provide name) acts (some fault))]
  | served : w.frames.map Frame.site = (template :: path).map (·.toSite) →
      ArgumentSource.Opens env sources w streams w' → (ArgumentSource.joined streams).source.Supplies rows error →
      (∀ rowss, List.Forall₂ (fun s rows => s.source.Supplies rows none) streams rowss →
        rows = rowss.flatten ∧ error = none) →
      List.Forall₂ (RowInvoked env path template t) (rows.zipIdx 1) (visits uses) →
      RowsServed env path template t name sources (.act (.step (.provide name) acts none) :: uses)

/-- A template without a selection, as far as it is served by a parameterized test alone. -/
def RowsInvoked (env : Environment σ ν) (path : List (Place σ ν)) (v : Visit σ ν) (inside : List (Deed σ ν)) : Prop :=
  ∀ t rest, v.descriptor.role = .template t → t.selection = none → v.leaving = .ended → Entered inside rest →
    ∃ asked providers part xs course ending, rest = course ++ ending ∧
      InvocationOrder env path v.place t asked providers part xs course ∧ Finish v.place ending ∧
      visits inside = visits part ∧
      ∀ name p pattern sources, providers = [(name, p)] →
        (Extension.parameterized pattern sources).invocationProvider = some p →
        RowsServed env path v.place t name sources part

/-- The resolver of a row takes its place in the chain of the template. -/
theorem seconded_of_made {v : Visit σ ν} {row : List Argument} {inside : List (Deed σ ν)} {ps : List Parameter}
    (law : Law env (place :: path) v inside)
    (made : v.MadeAs (dynamicDescriptor place.descriptor "test-template-invocation" i name .test
      [Extension.argumentsResolver m row]) .executed)
    (declines : ∀ e ∈ place.registry.extensions .parameterResolver, ∀ r, e.parameterResolver = some r →
      ∀ p ∈ ps, r.Declines env (v.place :: place :: path) ⟨p, m⟩) :
    Seconded env (place :: path) v.place m ps row := by
  obtain ⟨r, before, after, registered, above, chain⟩ :=
    place.registry.registered_alone .invocation
      (show (Extension.argumentsResolver m row).has .parameterResolver from rfl) rfl
  have own : registryFor env.settings v.descriptor (registryAbove env (place :: path)) = .ok r := by
    rw [made.descriptor]
    exact registered
  have registry : v.place.registry = r := by rw [law.registry, registryBelow, own]
  refine ⟨before, after, by rw [registry, chain], fun e member => declines e ?_⟩
  rw [above]
  exact member

/-- A node whose body is the first to raise an error fails with that, unless it is an abort. -/
theorem FullLaw.failed_of_first {v : Visit σ ν} {inside : List (Deed σ ν)} (law : FullLaw timed env path v inside)
    (reported : .report (.finished r) ∈ inside) (first : (raised inside).head? = some e)
    (failure : e.isAborted = false) :
    ∃ e', r = .failed e' ∧ e'.kind = e.kind := by
  obtain ⟨e', error, kind, _⟩ := law.leading r reported e first failure
  have notAborted : r.isAborted = false := by
    rw [Bool.eq_false_iff, ne_eq, (law.result r reported).2.aborted]
    rintro ⟨_, all⟩
    simp [all e (List.mem_of_mem_head? first)] at failure
  cases r with
  | successful => contradiction
  | aborted => contradiction
  | failed e =>
    cases error
    exact ⟨e', rfl, kind⟩

theorem FullLaw.runsRow {v : Visit σ ν} {inside rest : List (Deed σ ν)} {limit : Option Duration}
    {m : Method σ ν Unit} {row : List Argument} (law : FullLaw False env path v inside) (ended : v.leaving = .ended)
    (test : testOf? path v.descriptor = some (m, limit)) (positional : Parameter.Positional m.parameters)
    (alone : Seconded env path v.place m.name m.parameters row) (entered : Entered inside rest) :
    RunsRow env path v.place m row rest := by
  obtain ⟨asked, same⟩ := entered
  obtain ⟨course, ending, rfl, runs, finish⟩ := law.runsTest ended asked rest same
  obtain ⟨p, rfl, order⟩ := runs m limit test
  have order := order.mono fun body => body.row positional alone
  refine ⟨p, ending, rfl, finish, order, fun silent unfit => ?_⟩
  obtain ⟨inst, outcome, acts, body, -, called⟩ := order.body.held silent
  obtain ⟨e, rfl, resolution⟩ := called.resolution unfit
  obtain ⟨acts', fault, told, r, last, _⟩ := finish
  have first : (raised inside).head? = some e := by
    have failed (s : String) (number : Option Nat) (rest : List (Deed σ ν)) :
        raised (.act (.step (.body s number) acts (some (.error e))) :: rest) = e :: raised rest := rfl
    simp only [raised_append, List.append_eq_nil_iff] at silent
    simp [same, LeafParts.deeds, body, silent, admission, faultOf, failed]
  have reported : .report (.finished r) ∈ inside := by simp [same, last]
  have failure : e.isAborted = false := by simp [TestError.isAborted, resolution]
  obtain ⟨e', rfl, kind⟩ := law.failed_of_first reported first failure
  exact ⟨e', by simp [last], kind.trans resolution⟩

theorem FullLaw.rowInvoked {v : Visit σ ν} {inside : List (Deed σ ν)} {x : List Argument × Nat}
    (role : place.descriptor.role = .template t) (law : FullLaw False env (place :: path) v inside)
    (made : v.MadeAs (dynamicDescriptor place.descriptor "test-template-invocation" x.2 name .test
      [Extension.argumentsResolver t.method.name x.1]) .executed) :
    RowInvoked env path place t x (v, inside) where
  made := ⟨name, made⟩
  given positional declines rest entered := by
    have test : testOf? (place :: path) v.descriptor = some (t.method, place.descriptor.timeout) := by
      simp [testOf?, Place.template?, role, made.descriptor, dynamicDescriptor]
    exact law.runsRow made.ended test positional (seconded_of_made law.toLaw made declines) entered

theorem zipIdx_map_zipIdx (f : Nat → α → β) (xs : List α) (k : Nat) :
    ((xs.zipIdx k).map fun x => f x.2 x.1).zipIdx k = (xs.zipIdx k).map fun x => (f x.2 x.1, x.2) := by
  induction xs generalizing k with
  | nil => rfl
  | cons x xs ih => simp only [List.zipIdx_cons, List.map_cons, ih]

/-- All are invoked without a selection. -/
theorem Template.chosen_all (t : Template σ ν) (none : t.selection = none) (xs : List α) :
    t.chosen 0 xs = xs.zipIdx 1 := by
  simp [chosen, none]

theorem InvocationOrder.visits {asked : List (Act ν)} {course part : List (Deed σ ν)}
    {providers : List (String × InvocationProvider σ ν (Extension σ ν))}
    {xs : List (TemplateInvocation (Extension σ ν))}
    (h : InvocationOrder env path place t asked providers part xs course) : Deed.visits course = Deed.visits part := by
  have last (made : List (TemplateInvocation (Extension σ ν))) (allowZero : Bool) (e : TestError) :
      Deed.visits [lastCheck made allowZero e part] = [] := rfl
  cases providers with
  | nil =>
    have none : part = [] := by cases h.supplied; rfl
    rw [h.unsupported rfl, none]
    simp
  | cons p ps =>
    rw [h.supported (List.cons_ne_nil p ps)]
    simp [last]

/-- The stream that a parameterized test provides is that of its sources, with an invocation for each row. -/
theorem Enacts.served {p : InvocationProvider σ ν (Extension σ ν)} {acts : List (Act ν)} {pattern : Option String}
    {sources : List (ArgumentSource σ ν)} {outcome : Except Fault (Stream σ ν (TemplateInvocation (Extension σ ν)))}
    (h : Enacts env (place :: path) (obtain name p).run outcome
      (Act.entriesAll place.descriptor.id [.step (.provide name) acts (faultOf outcome)]))
    (role : place.descriptor.role = .template t)
    (same : (Extension.parameterized pattern sources).invocationProvider = some p) :
    ∃ w, w.frames.map Frame.site = (place :: path).map (·.toSite) ∧
      ((∃ streams w', ∃ title : Nat → List Argument → String, ArgumentSource.Opens env sources w streams w' ∧
          outcome = .ok ((ArgumentSource.joined streams).mapNumbered fun i row =>
            { displayName := title i row, extensions := [Extension.argumentsResolver t.method.name row] })) ∨
        (∀ streams w', ¬ ArgumentSource.Opens env sources w streams w') ∧ ∃ fault, outcome = .error fault) := by
  cases h.asked with
  | @provides w provided w' there goes _ _ =>
    refine ⟨w, there, ?_⟩
    obtain ⟨f, above, frames, site⟩ : ∃ f above, w.frames = f :: above ∧ f.site = place.toSite := by
      cases frames : w.frames with
      | nil => simp [frames] at there
      | cons f above => exact ⟨f, above, rfl, by simpa using (List.cons.inj (frames ▸ there)).1⟩
    have role' : f.descriptor.role = .template t := (congrArg (·.descriptor.role) site).trans role
    obtain ⟨title, provides⟩ := ArgumentSource.goes_provide env frames role' same
    rw [goes] at provides
    rcases started : (perform (ArgumentSource.startAll .empty sources)).run.goes env w with ⟨halt | fault | all, w''⟩
    all_goals rw [started] at provides
    · cases provides
    · cases provides
      refine .inr ⟨fun streams w' opens => ?_, _, rfl⟩
      have opened := opens.startAll .empty
      rw [started] at opened
      cases opened
    · cases provides
      obtain ⟨streams, opens, rfl⟩ := ArgumentSource.startAll_ok started
      exact .inl ⟨streams, _, title, opens, rfl⟩

section
variable {p : InvocationProvider σ ν (Extension σ ν)} {pattern : Option String} {sources : List (ArgumentSource σ ν)}
  {acts : List (Act ν)} {stream : Stream σ ν (TemplateInvocation (Extension σ ν))}
  {xs : List (TemplateInvocation (Extension σ ν))}

/-- The stream is run down, and each row in it is invoked under its number. -/
theorem Spent.rowsServed (h : Spent t.last? (Invoked t) ds 0 place.descriptor stream xs)
    (enacts : Enacts env (place :: path) (obtain name p).run (.ok stream)
      (Act.entriesAll place.descriptor.id [.step (.provide name) acts none]))
    (role : place.descriptor.role = .template t) (unselected : t.selection = none)
    (same : (Extension.parameterized pattern sources).invocationProvider = some p)
    (each : ∀ visited ∈ Deed.visits ds, FullLaw False env (place :: path) visited.1 visited.2) :
    RowsServed env path place t name sources (.act (.step (.provide name) acts none) :: ds) := by
  obtain ⟨w, there, ⟨streams, w', title, opens, provided⟩ | ⟨_, _, failed⟩⟩ := enacts.served role same
  · cases provided
    have invoked := h.invocations
    have last : t.last? = none := by simp [Template.last?, unselected]
    rw [last] at h
    cases h with
    | closed taken =>
      obtain ⟨rows, supplied, rfl⟩ := Stream.supplies_of_mapNumbered taken.supplies
      rw [t.chosen_all unselected, zipIdx_map_zipIdx fun i row =>
        ({ displayName := title i row, extensions := [Extension.argumentsResolver t.method.name row] } :
          TemplateInvocation (Extension σ ν)), List.forall₂_map_left_iff] at invoked
      refine .served there opens supplied ?_ ?_
      · exact fun rowss supplies => supplied.unique (ArgumentSource.supplies_joined supplies)
      · have lawful := (List.forall₂_and_left _ _).mpr ⟨each, invoked.flip⟩
        refine (lawful.imp ?_).flip
        rintro visited x ⟨law, made⟩
        exact law.rowInvoked role made
  · contradiction

theorem Supplied.rowsServed (h : Supplied env path place t 0 [(name, p)] ds xs)
    (role : place.descriptor.role = .template t) (unselected : t.selection = none)
    (same : (Extension.parameterized pattern sources).invocationProvider = some p)
    (each : ∀ visited ∈ Deed.visits ds, FullLaw False env (place :: path) visited.1 visited.2) :
    RowsServed env path place t name sources ds := by
  cases h with
  | refused enacts =>
    obtain ⟨w, there, ⟨_, _, _, _, provided⟩ | ⟨unopened, _⟩⟩ := enacts.served role same
    · contradiction
    · exact .refused there unopened
  | stopped enacts spent _ => exact spent.rowsServed enacts role unselected same each
  | further enacts spent _ rest =>
    cases rest
    rw [List.append_nil] at each ⊢
    exact spent.rowsServed enacts role unselected same each

end

theorem FullLaw.rowsInvoked {v : Visit σ ν} {inside : List (Deed σ ν)} (law : FullLaw False env path v inside)
    (lawful : ∀ d ∈ inside, Everywhere (FullLaw False env) (v.place :: path) d) : RowsInvoked env path v inside := by
  intro t rest role unselected ended entered
  rcases law.invocationsInOrder lawful t rest role (by simp [ended]) entered with
    ⟨_, asked, providers, part, xs, course, ending, rfl, order, finish⟩ | ⟨payload, torn, _⟩
  · have within : visits inside = visits part := by
      obtain ⟨_, rfl⟩ := entered
      simp [admission, order.visits, finish.visits]
    refine ⟨asked, providers, part, xs, course, ending, rfl, order, finish, within, ?_⟩
    rintro name p pattern sources rfl same
    refine order.supplied.rowsServed role unselected same fun visited member => ?_
    cases lawful _ (mem_visits (within ▸ member)) with
    | visit law _ => exact law
  · simp [ended] at torn

end

section
variable {c : Configuration} {extensions : List (Declared σ ν)} {tree : TestTree σ ν} {user : σ} {run : Run σ ν}

/-- In a run without timeouts each template that a parameterized test serves alone is invoked once for each row of the
sources, in order, and its method is called with the values of the row if the row has enough of them and the parameters
accept these. -/
theorem rows_invoked (executed : execute c extensions tree user = .ok run)
    (untimed : (∀ d ∈ tree.preorder, d.timeout = none) ∧ (Settings.ofConfiguration c).defaultTimeout = none) :
    run.Always c extensions tree RowsInvoked := Run.always_untimed executed untimed FullLaw.rowsInvoked

def Event.failure? (e : Event) : Option (String × ErrorKind) :=
  match e.kind with
  | .finished (.failed error) => some (e.displayName, error.kind)
  | _ => none

/-- A template with two parameters and two sources. In the second row there is a value too many, in the third one too
few, and in the last one of another type. -/
def Blueprint.table : Blueprint Unit String :=
  let adds : Method Unit String Unit :=
    { signature := { name := "adds", parameters := Parameter.declare [("a", .int), ("b", .int)] }
      body := fun invocation => .note (", ".intercalate (invocation.arguments.map (·.render))) (.done (.ok ())) }
  let row (values : List Value) : List Argument := values.map fun value => { value }
  .node (.engine "engine") [
    .node { Outline.ofTemplate { method := adds } with
      extensions := [⟨.parameterized (some "{index}") [.rows [row [.int 1, .int 2], row [.int 3, .int 4, .int 5]],
        .rows [row [.int 6], row [.int 7, .text "8"]]], .default⟩] } []]

theorem rows_invoked_sample : ∃ run, execute .empty [] Blueprint.table.build () = .ok run ∧
    run.notes = ["1, 2", "3, 4"] ∧
    run.events.filterMap (·.failure?) = [("3", .resolution), ("4", .resolution)] ∧
    run.Always .empty [] Blueprint.table.build RowsInvoked := by
  obtain ⟨run, executed, checked⟩ := Blueprint.executed_of_any (r := execute .empty [] Blueprint.table.build ())
    (p := fun run => run.notes == ["1, 2", "3, 4"] &&
      run.events.filterMap (·.failure?) == [("3", .resolution), ("4", .resolution)]) (by decide +kernel)
  rw [Bool.and_eq_true, beq_iff_eq, beq_iff_eq] at checked
  exact ⟨run, executed, checked.1, checked.2, rows_invoked executed ⟨by decide, by decide⟩⟩

end

end TestEngine

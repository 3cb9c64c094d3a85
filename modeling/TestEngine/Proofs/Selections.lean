import TestEngine.Proofs.Invocations

/-! How far a selection bounds what a template draws. If it contains a number at all, no element beyond the highest of
these is drawn, and the expansion is broken off only where code of the user is. If it contains none, that keeps
nothing from being drawn: each stream is run down to its end, if it has one. -/
namespace TestEngine
variable {σ ν α β : Type} {env : Environment σ ν}

open Deed Execution

def Source.first (count : Nat) : Source σ ν α → List (Draw σ ν α)
  | .listed draws => draws.take count
  | .endless draw => (List.range count).map draw

theorem upTo_eq_inTurn {δ : Type} (take : Nat → δ → Engine σ ν (Option TestError)) (draw : Nat → δ)
    (drawn left i : Nat) : upTo (fun i => take (drawn + i + 1) (draw i)) drawn left i =
      inTurn take (drawn + i) ((List.range' i left).map draw) := by
  induction left generalizing i with
  | zero => rfl
  | succ left ih =>
    rw [List.range'_succ, List.map_cons]
    unfold upTo inTurn
    congr 1
    funext error
    cases error with
    | some e => rfl
    | none => exact ih (i + 1)

variable {t : Template σ ν} {template : Descriptor σ ν}

/-- A template that selects a number draws from any source as from a list that ends with the highest. -/
theorem executeSource_eq (highest : t.last? = some last) (drawn : Nat)
    (source : Source σ ν (TemplateInvocation (Extension σ ν))) :
    executeSource t template drawn source = inTurn (executeDraw t template) drawn (source.first (last - drawn)) := by
  unfold Template.last? at highest
  cases source with
  | listed draws => simp only [executeSource, highest, Option.elim, Source.first]
  | endless draw =>
    simp only [executeSource, highest, Source.first, List.range_eq_range']
    exact upTo_eq_inTurn _ draw drawn _ 0

def Breaks (env : Environment σ ν) (m : Engine σ ν α) (h : Halt) : Prop := ∃ w w', m.goes env w = (.error h, w')

/-- From some world the code comes to its end with a value. -/
def Answers (env : Environment σ ν) (m : Engine σ ν α) (a : α) : Prop := ∃ w w', m.goes env w = (.ok a, w')

namespace Breaks
variable {h : Halt}

theorem of_bind {m : Engine σ ν α} {k : α → Engine σ ν β} (b : Breaks env (m >>= k) h) :
    Breaks env m h ∨ ∃ a, Answers env m a ∧ Breaks env (k a) h := by
  obtain ⟨w, w', goes⟩ := b
  rw [Engine.goes_bind] at goes
  rcases outcome : m.goes env w with ⟨halt | a, w₁⟩ <;> rw [outcome] at goes
  · cases goes
    exact .inl ⟨w, w', outcome⟩
  · exact .inr ⟨a, ⟨w, w₁, outcome⟩, w₁, w', goes⟩

theorem not_pure (a : α) : ¬ Breaks env (pure a : Engine σ ν α) h := by
  rintro ⟨w, w', goes⟩
  cases goes

theorem not_act (action : Action σ ν α) : ¬ Breaks env (Engine.act action) h := by
  rintro ⟨w, w', goes⟩
  cases goes

theorem of_step {code : Attempt σ ν α} {s : Step} (b : Breaks env (Engine.step s code).run h) :
    Breaks env code.run h := by
  obtain ⟨w, w', goes⟩ := b
  rw [Engine.goes_step] at goes
  exact ⟨w.mark s .began, _, Prod.ext (Prod.mk.inj goes).1 rfl⟩

theorem of_collect {code : Attempt σ ν Unit} {c : Collector} (b : Breaks env (collect c code) h) :
    Breaks env code.run h := by
  rcases b.of_bind with first | ⟨outcome, _, last⟩
  · exact first
  · exact absurd last (not_pure _)

theorem not_check (c : Collector) (wrong : Option TestError) : ¬ Breaks env (collect c (Engine.check wrong)) h := by
  intro b
  have raising := b.of_collect.of_step
  cases wrong <;> exact not_pure _ raising

theorem not_closeStream (c : Collector) (s : Stream σ ν α) : ¬ Breaks env (collect c (closeStream s)) h :=
  fun b => not_act _ b.of_collect.of_step

theorem not_drawItem (d : Draw σ ν α) : ¬ Breaks env (drawItem d) h := by
  intro b
  rcases b.of_bind with drawn | ⟨outcome, _, last⟩
  · have acted := drawn.of_step
    rw [ExceptT.run_mk] at acted
    exact not_act _ acted
  · cases outcome <;> exact not_pure _ last

theorem of_inTurn {δ : Type} {take : Nat → δ → Engine σ ν (Option TestError)} {xs : List δ}
    (b : Breaks env (inTurn take drawn xs) h) : ∃ x ∈ xs, ∃ index, Breaks env (take index x) h := by
  induction xs generalizing drawn with
  | nil => exact absurd b (not_pure _)
  | cons x xs ih =>
    rcases b.of_bind with here | ⟨error, _, behind⟩
    · exact ⟨x, List.mem_cons_self, _, here⟩
    · cases error with
      | some e => exact absurd behind (not_pure _)
      | none =>
        obtain ⟨y, member, index, there⟩ := ih behind
        exact ⟨y, List.mem_cons_of_mem _ member, index, there⟩

theorem of_executeDraw {d : Draw σ ν (TemplateInvocation (Extension σ ν))}
    (b : Breaks env (executeDraw t template index d) h) :
    ∃ x, t.selection.all (·.contains index) ∧ Answers env (drawItem d) (.ok x) ∧
      Breaks env (executeInvocation t template index x) h := by
  rcases b.of_bind with drawn | ⟨outcome, yields, behind⟩
  · exact absurd drawn (not_drawItem d)
  · cases outcome with
    | error e => exact absurd behind (not_pure _)
    | ok x =>
      dsimp only at behind
      split at behind
      · rename_i selected
        rcases behind.of_bind with invocation | ⟨_, _, last⟩
        · exact ⟨x, selected, yields, invocation⟩
        · exact absurd last (not_pure _)
      · exact absurd behind (not_pure _)

end Breaks

/-- What is broken off where the expansion of a template is: code of the user that is asked whether it supports the
template or for a stream, or a selected invocation that is drawn from such a stream. -/
inductive ExpansionBroken (env : Environment σ ν) (t : Template σ ν) (template : Descriptor σ ν)
    (es : List (Extension σ ν)) (h : Halt) : Prop where
  | asked : Breaks env (supportingProviders es) h → ExpansionBroken env t template es h
  | provided : Answers env (supportingProviders es) ps → (name, p) ∈ ps → Breaks env (obtain name p).run h →
      ExpansionBroken env t template es h
  | invoked : Answers env (supportingProviders es) ps → (name, p) ∈ ps →
      Answers env (obtain name p).run (.ok stream) →
      t.last? = some last → d ∈ stream.source.first last → Answers env (drawItem d) (.ok x) →
      t.selection.all (·.contains index) → Breaks env (executeInvocation t template index x) h →
      ExpansionBroken env t template es h

namespace Breaks
variable {h : Halt}

theorem of_executeProviders {ps : List (String × InvocationProvider σ ν (Extension σ ν))}
    (b : Breaks env (executeProviders t template drawn ps) h) :
    ∃ name p, (name, p) ∈ ps ∧ (Breaks env (obtain name p).run h ∨
      ∃ stream, Answers env (obtain name p).run (.ok stream) ∧ ∃ drawn, Breaks env (executeSource t template drawn stream.source) h) := by
  induction ps generalizing drawn with
  | nil => exact absurd b (not_pure _)
  | cons provider ps ih =>
    obtain ⟨name, p⟩ := provider
    rcases b.of_bind with here | ⟨outcome, yields, behind⟩
    · exact ⟨name, p, List.mem_cons_self, .inl here⟩
    · cases outcome with
      | error fault => exact absurd behind (not_pure _)
      | ok stream =>
        rcases behind.of_bind with source | ⟨⟨drawn', error⟩, _, behind⟩
        · refine ⟨name, p, List.mem_cons_self, .inr ⟨stream, yields, drawn, ?_⟩⟩
          unfold unlessClosed at source
          split at source
          · exact absurd source (not_pure _)
          · exact source
        · rcases behind.of_bind with closing | ⟨c, _, behind⟩
          · exact absurd closing (not_closeStream _ stream)
          · split at behind
            · obtain ⟨name, p, member, broken⟩ := ih behind
              exact ⟨name, p, List.mem_cons_of_mem _ member, broken⟩
            · exact absurd behind (not_pure _)

theorem of_executeSource (highest : t.last? = some last)
    {source : Source σ ν (TemplateInvocation (Extension σ ν))}
    (b : Breaks env (executeSource t template drawn source) h) :
    ∃ d ∈ source.first last, ∃ x index, Answers env (drawItem d) (.ok x) ∧ t.selection.all (·.contains index) ∧
      Breaks env (executeInvocation t template index x) h := by
  rw [executeSource_eq highest] at b
  obtain ⟨d, member, index, broken⟩ := b.of_inTurn
  obtain ⟨x, selected, yields, invocation⟩ := broken.of_executeDraw
  refine ⟨d, ?_, x, index, yields, selected, invocation⟩
  cases source with
  | listed draws => exact List.take_subset_take_left draws (Nat.sub_le last drawn) member
  | endless draw =>
    obtain ⟨i, among, rfl⟩ := List.mem_map.mp member
    have within := List.mem_range.mp among
    exact List.mem_map_of_mem (List.mem_range.mpr (by omega))

theorem of_proceedIf {entered : Bool} {c : Collector} {next : Collector → Engine σ ν Collector}
    (b : Breaks env (proceedIf entered c next) h) : Breaks env (next c) h := by
  cases entered with
  | true => exact b
  | false => exact absurd b (not_pure _)

/-- Where a number is selected, drawing never goes on for ever. -/
theorem of_executeTemplate (highest : t.last? = some last) {w w' : World σ ν}
    (broken : (executeTemplate t template).goes env w = (.error h, w')) :
    ExpansionBroken env t template (w.extensions .invocationProvider) h := by
  have read : (Engine.extensions .invocationProvider : Engine σ ν (List (Extension σ ν))).goes env w =
    (.ok (w.extensions .invocationProvider), w) := rfl
  unfold executeTemplate at broken
  rw [Engine.goes_bind, read] at broken
  have b : Breaks env _ h := ⟨w, w', broken⟩
  rcases b.of_bind with asking | ⟨ps, asked, b⟩
  · exact .asked asking
  rcases b.of_bind with checking | ⟨c, _, b⟩
  · exact absurd checking (not_check _ _)
  rcases b.of_bind with expanding | ⟨_, _, last⟩
  · rcases expanding.of_proceedIf.of_bind with providing | ⟨_, _, checking⟩
    · obtain ⟨name, p, member, own | ⟨stream, obtained, drawn, source⟩⟩ := providing.of_executeProviders
      · exact .provided asked member own
      · obtain ⟨d, among, x, index, yields, selected, invocation⟩ := source.of_executeSource highest
        exact .invoked asked member obtained highest among yields selected invocation
    · exact absurd checking (not_check _ _)
  · exact absurd last (not_pure _)

end Breaks

theorem Template.last?_eq_none {s : Selection} (same : t.selection = some s) (nothing : ∀ i, ¬ s.contains i) :
    t.last? = none := by
  cases highest : t.last? with
  | none => rfl
  | some last =>
    have max : s.max? = some last := by simpa [Template.last?, same] using highest
    exact absurd (Selection.max?_eq_some_iff.mp max).1 (nothing last)

theorem goes_drawItem {d : Draw σ ν α} (value : d.item.outcome = .ok x) (w : World σ ν) :
    ∃ w', (drawItem d).goes env w = (.ok (.ok x), w') := by
  obtain ⟨effect, item⟩ := d
  cases item with
  | value y =>
    cases value
    exact ⟨_, rfl⟩
  | error | panic => contradiction

/-- An element that is drawn and not selected is passed over. -/
theorem goes_executeDraw {d : Draw σ ν (TemplateInvocation (Extension σ ν))} (value : d.item.outcome = .ok x)
    (passedOver : t.selection.all (·.contains index) = false) (w : World σ ν) :
    ∃ w', (executeDraw t template index d).goes env w = (.ok none, w') := by
  obtain ⟨w', drawn⟩ : ∃ w', (drawItem d).goes env w = (.ok (.ok x), w') := goes_drawItem value w
  refine ⟨w', ?_⟩
  unfold executeDraw
  rw [Engine.goes_bind, drawn]
  dsimp only
  rw [passedOver]
  rfl

theorem goes_upTo {take : Nat → Engine σ ν (Option TestError)}
    (each : ∀ i w, ∃ w', (take i).goes env w = (.ok none, w')) (drawn left i : Nat) (w : World σ ν) :
    ∃ w', (upTo take drawn left i).goes env w = (.ok (drawn + (i + left), none), w') := by
  induction left generalizing i w with
  | zero => exact ⟨w, rfl⟩
  | succ left ih =>
    obtain ⟨w₁, here⟩ := each i w
    obtain ⟨w₂, behind⟩ := ih (i + 1) w₁
    refine ⟨w₂, ?_⟩
    unfold upTo
    rw [Engine.goes_bind, here]
    dsimp only
    rw [behind, Nat.add_assoc i 1 left, Nat.add_comm 1 left]

/-- Where no number is selected a source without an end is drawn from for ever. -/
theorem endless_of_nothing {s : Selection} (same : t.selection = some s) (nothing : ∀ i, ¬ s.contains i)
    {draw : Nat → Draw σ ν (TemplateInvocation (Extension σ ν))} (values : ∀ i, ∃ x, (draw i).item.outcome = .ok x)
    (drawn : Nat) (w : World σ ν) :
    ((executeSource t template drawn (.endless draw)).goes env w).1 = .error .endless := by
  have highest : t.selection.bind Selection.max? = none := Template.last?_eq_none same nothing
  have each (i : Nat) (w : World σ ν) :
      ∃ w', (executeDraw t template (drawn + i + 1) (draw i)).goes env w = (.ok none, w') := by
    obtain ⟨x, value⟩ := values i
    exact goes_executeDraw value (by simp [same, nothing]) w
  obtain ⟨w', drew⟩ := goes_upTo each drawn drawLimit 0 w
  unfold executeSource withoutEnd
  simp only [highest]
  rw [Engine.goes_bind, drew]
  rfl

variable {path : List (Place σ ν)} {place : Place σ ν} {ds : List (Deed σ ν)}

namespace Deed

theorem draws_eq_zero (apart : ∀ d ∈ ds, ¬ d.isDraw) : draws ds = 0 := List.countP_eq_zero.mpr apart

@[simp] theorem draws_report (r : Report) : draws (.report r :: ds) = draws ds := List.countP_cons_of_neg nofun

@[simp] theorem draws_check (inside : List (Act ν)) (fault : Option Fault) :
    draws (.act (.step .check inside fault) :: ds) = draws ds := List.countP_cons_of_neg nofun

@[simp] theorem draws_admission (asked : List (Act ν)) (fault : Option Fault) :
    draws (admission (σ := σ) asked fault) = 0 := rfl

end Deed

theorem SupportAsked.draws {asked : List (Act ν)} (h : SupportAsked asked) :
    Deed.draws (asked.map (.act (σ := σ))) = 0 := by
  refine draws_eq_zero fun d member => ?_
  obtain ⟨a, among, rfl⟩ := List.mem_map.mp member
  obtain ⟨name, inside, rfl⟩ := h a among
  simp [isDraw]

theorem Deed.InTurn.draws {plan : List (Step → Prop)} (turns : InTurn plan ds) (apart : ∀ P ∈ plan, ¬ P .draw) :
    Deed.draws ds = 0 := by
  induction turns with
  | nil => rfl
  | @step P plan rest s inside fault p _ ih =>
    have other : ¬ (.act (.step s inside fault) : Deed σ ν).isDraw := by
      cases s with
      | draw => exact absurd p (apart P List.mem_cons_self)
      | _ => nofun
    rw [Deed.draws, List.countP_cons_of_neg other]
    exact ih fun P member => apart P (List.mem_cons_of_mem _ member)

theorem Finish.draws (h : Finish place ds) : Deed.draws ds = 0 := by
  obtain ⟨inside, fault, told, r, rfl, turns⟩ := h
  have silent : Deed.draws told = 0 := by
    refine turns.draws fun P member drawn => ?_
    unfold Place.watcherSteps Registry.watcherSteps at member
    split at member
    · obtain ⟨e, _, rfl⟩ := List.mem_map.mp member
      contradiction
    · contradiction
  have closes : Deed.draws [(.act (.step .closeStore inside fault) : Deed σ ν)] = 0 := rfl
  rw [← List.singleton_append, draws_append, draws_append, closes, silent]
  rfl

/-- What a template is supplied with accounts for all that it draws and visits. -/
theorem TemplateExpansion.supply (h : TemplateExpansion env path place t ds) :
    ∃ providers part xs, Supplied env path place t 0 providers part xs ∧ Deed.draws ds = Deed.draws part ∧
      visits ds = visits part := by
  cases h with
  | @unsupported asked _ supports => exact ⟨[], [], [], .all, by simp [supports.draws], by simp⟩
  | @supplied providers asked part xs _ supports _ _ supplied =>
    refine ⟨providers, part, xs, supplied, ?_, by simp [lastCheck]⟩
    simp only [lastCheck, List.append_assoc, draws_append, supports.draws, List.cons_append, draws_check,
      Nat.zero_add]
    rfl

/-- How far a selection bounds a template that is entered. -/
structure SelectionKept (env : Environment σ ν) (path : List (Place σ ν)) (place : Place σ ν) (t : Template σ ν)
    (s : Selection) (inside : List (Deed σ ν)) : Prop where
  /-- No element is drawn beyond the highest that is selected. -/
  bounded : ∀ last, s.contains last → (∀ i, s.contains i → i ≤ last) → draws inside ≤ last
  /-- If none is selected none is executed. All the same they are drawn, from streams that are spent without a
  limit. -/
  unlimited : (∀ i, ¬ s.contains i) → visits inside = [] ∧ t.last? = none ∧ ∃ providers part xs,
    Supplied env path place t 0 providers part xs ∧ draws inside = draws part

theorem TemplateExpansion.selectionKept {s : Selection} {inside : List (Deed σ ν)}
    (h : TemplateExpansion env path place t ds) (same : t.selection = some s)
    (drawn : draws inside = draws ds) (visited : visits inside = visits ds) :
    SelectionKept env path place t s inside := by
  obtain ⟨providers, part, xs, supplied, drawnHere, visitedHere⟩ := h.supply
  constructor
  · intro last contained above
    have highest : t.last? = some last := by
      simpa [Template.last?, same] using Selection.max?_eq_some_iff.mpr ⟨contained, above⟩
    rw [drawn, drawnHere]
    exact supplied.draws.2.2 last highest
  · intro nothing
    have none : t.chosen 0 xs = [] := by simp [Template.chosen, same, nothing]
    have unvisited : visits part = [] := by
      have each := supplied.invocations
      rw [none] at each
      exact List.forall₂_nil_left_iff.mp each
    exact ⟨by rw [visited, visitedHere, unvisited], Template.last?_eq_none same nothing, providers, part, xs,
      supplied, drawn.trans drawnHere⟩

/-- A template that is entered keeps to its selection as far as that goes, unless a provider panics when it is asked
for its support. -/
def SelectionsKept (env : Environment σ ν) (path : List (Place σ ν)) (v : Visit σ ν)
    (inside : List (Deed σ ν)) : Prop :=
  ∀ t s rest, v.descriptor.role = .template t → t.selection = some s → v.leaving ≠ .stuck → Entered inside rest →
    (v.leaving = .ended ∧ SelectionKept env path v.place t s inside) ∨
    ∃ payload, v.leaving = .torn payload ∧ TemplateTorn payload rest

theorem FullLaw.selectionsKept {v : Visit σ ν} {inside : List (Deed σ ν)} (law : FullLaw timed env path v inside) :
    SelectionsKept env path v inside := by
  intro t s rest role same left entered
  rcases law.entered entered left with ⟨ended, _⟩ | ⟨payload, torn, course⟩
  · obtain ⟨course, ending, rfl, generates, finish, _⟩ := law.course ended entered
    obtain ⟨asked, rfl⟩ := entered
    cases generates with
    | factory other _ => simp [role] at other
    | none noTemplate _ => exact absurd role (noTemplate t)
    | template same' expansion =>
      cases Role.template.inj (same'.symm.trans role)
      refine .inl ⟨ended, expansion.selectionKept same ?_ ?_⟩
      · simp [finish.draws]
      · simp [admission, finish.visits]
  · cases course with
    | template _ torn' => exact .inr ⟨payload, torn, torn'⟩
    | testClass other _ => simp [role] at other
    | container _ other _ => simp [role] at other

/-- Of the elements that a template draws none is beyond the highest that is selected. If there is one, any source is
drawn from as if it ended there, however the run goes on, and the expansion is broken off only where code of the user
is. If there is none, a source of values without an end is drawn from for ever. -/
theorem selections_kept {c : Configuration} {extensions : List (Declared σ ν)} {tree : TestTree σ ν} {user : σ}
    {run : Run σ ν} (executed : execute c extensions tree user = .ok run) :
    run.Always c extensions tree SelectionsKept ∧
    ∀ (env : Environment σ ν) (t : Template σ ν) (template : Descriptor σ ν) (s : Selection),
      t.selection = some s →
      (∀ last, s.contains last → (∀ i, s.contains i → i ≤ last) →
        (∀ drawn source, executeSource t template drawn source =
          inTurn (executeDraw t template) drawn (source.first (last - drawn))) ∧
        ∀ w h w', (executeTemplate t template).goes env w = (.error h, w') →
          ExpansionBroken env t template (w.extensions .invocationProvider) h) ∧
      ((∀ i, ¬ s.contains i) → ∀ draw : Nat → Draw σ ν (TemplateInvocation (Extension σ ν)),
        (∀ i, ∃ x, (draw i).item.outcome = .ok x) → ∀ drawn w,
          ((executeSource t template drawn (.endless draw)).goes env w).1 = .error .endless) := by
  refine ⟨Run.always_of_full executed fun law _ => law.selectionsKept, fun env t template s same => ⟨?_, ?_⟩⟩
  · intro last contained above
    have highest : t.last? = some last := by
      simpa [Template.last?, same] using Selection.max?_eq_some_iff.mpr ⟨contained, above⟩
    exact ⟨executeSource_eq highest, fun w h w' broken => Breaks.of_executeTemplate highest broken⟩
  · intro nothing draw values
    exact endless_of_nothing same nothing values

/-- Two templates that note what they draw. The first selects one element of a stream without an end, and the second
selects none of two. -/
def Blueprint.choosy : Blueprint Unit String :=
  let drawing (name : String) : Draw Unit String (TemplateInvocation (Extension Unit String)) :=
    { effect := fun s => (["draws " ++ name], s), item := .value { displayName := name } }
  let template (name : String) (ranges : List (Nat × Nat))
      (source : Source Unit String (TemplateInvocation (Extension Unit String))) : Blueprint Unit String :=
    .node { Outline.ofTemplate {
        method := { signature := { name }, body := fun _ => .done (.ok ()) }
        selection := some ⟨ranges⟩, allowZero := true } with
      extensions := [⟨{ name := "provider", invocationProvider := some {
        supports := .done true, provide := .done (.ok { source }) } }, .default⟩] } []
  .node (.engine "engine") [
    template "one" [(2, 2)] (.endless fun i => drawing (toString (i + 1))),
    template "none" [(5, 3)] (.listed [drawing "first", drawing "second"])]

theorem selections_kept_sample : ∃ run, execute .empty [] Blueprint.choosy.build () = .ok run ∧
    run.notes = ["draws 1", "draws 2", "draws first", "draws second"] ∧
    run.events.map (·.displayName) = ["engine", "one", "2", "2", "2", "one", "none", "none", "engine"] ∧
    run.Always .empty [] Blueprint.choosy.build SelectionsKept := by
  obtain ⟨run, executed, checked⟩ := Blueprint.executed_of_any
    (r := execute .empty [] Blueprint.choosy.build ()) (p := fun run =>
      run.notes == ["draws 1", "draws 2", "draws first", "draws second"] &&
      run.events.map (·.displayName) == ["engine", "one", "2", "2", "2", "one", "none", "none", "engine"])
    (by decide +kernel)
  rw [Bool.and_eq_true, beq_iff_eq, beq_iff_eq] at checked
  exact ⟨run, executed, checked.1, checked.2, (selections_kept executed).1⟩

end TestEngine

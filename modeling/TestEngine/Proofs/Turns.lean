import TestEngine.Proofs.Arrangements
import TestEngine.Proofs.Containment

/-! Runs with one thread. Where parallel execution is enabled, but there is one thread for all nodes, a run is that of a
run without parallel execution, of the tree in which the children stand in the order in which they take turns. -/
namespace TestEngine
variable {σ ν : Type}

open Execution Coupling

/-- The view is the same, or the same but for the configuration. -/
def View.Reconfigured (c c' : Configuration) (v v' : View) : Prop :=
  v' = v ∨ v.configuration = c ∧ v' = { v with configuration := c' }

def Environment.sequential (env : Environment σ ν) (c : Configuration) : Environment σ ν :=
  { env with configuration := c, settings := { env.settings with parallel := false } }

variable {env : Environment σ ν} {c : Configuration}

/-- All frames are of nodes and registries without code that tells related views apart. -/
def BlindSites (S : View → View → Prop) (sites : List (Site σ ν)) : Prop :=
  ∀ s ∈ sites, s.descriptor.Blind S ∧ s.registry.Blind S

/-- A run, and a run in the same state without parallel execution. -/
def Coupling.sequential (env : Environment σ ν) (c : Configuration) : Coupling σ ν where
  env := env
  env' := env.sequential c
  frames fs fs' := fs' = fs ∧ BlindSites (View.Reconfigured env.configuration c) (fs.map Frame.site)
  registry r r' := r' = r ∧ r.Blind (View.Reconfigured env.configuration c)
  trace := Eq
  view := View.Reconfigured env.configuration c
  covers _ := True
  hookOrder := rfl
  defaultLifecycle := rfl
  defaultTimeout := rfl
  deactivated := rfl
  faces same := by rw [same.1]
  registries related := by
    obtain ⟨same, blind⟩ := related
    cases same
    exact ⟨rfl, (blind _ List.mem_cons_self).2⟩
  seen {fs _} abandoned same := by
    rw [same.1]
    cases fs with
    | nil => exact .inl rfl
    | cons f fs => exact .inr ⟨rfl, rfl⟩
  changed level store instances exception related := by
    obtain ⟨rfl, blind⟩ := related
    refine ⟨rfl, ?_⟩
    rwa [Frame.map_modify _ level (Frame.change store instances exception) fun _ => rfl]
  told es same := congrArg (· ++ es) same
  resolves := trivial
  conditions := trivial
  applied capability related _ := by
    obtain ⟨rfl, blind⟩ := related
    exact ⟨rfl, fun e member => (blind e (Registry.mem_all_of_extensions member)).blindFor capability⟩

namespace Coupling

theorem sequential_nests (root : env.registry.Blind (View.Reconfigured env.configuration c)) :
    (sequential env c).Nests where
  covers _ _ := trivial
  nodes related f member := (related.2 f.site (List.mem_map_of_mem member)).1
  announces := Pairs.announces trivial
  root := ⟨rfl, root⟩
  registered {r r'} scope ds related blind := by
    obtain ⟨rfl, above⟩ := related
    cases registered : registerAll (r'.child scope) ds with
    | error e => exact .error e
    | ok own => exact .ok ⟨rfl, (above.child scope).registerAll blind registered⟩
  enters lifecycle held related own blind := by
    obtain ⟨rfl, above⟩ := related
    obtain ⟨rfl, known⟩ := own
    exact ⟨rfl, List.forall_mem_cons.mpr ⟨⟨blind, known⟩, above⟩⟩
  leaves related := by
    obtain ⟨same, blind⟩ := related
    exact ⟨(List.cons.inj same).2, fun s member => blind s (List.mem_cons_of_mem _ member)⟩

/-- A state is coupled with itself as long as the sites are blind. -/
theorem Holds.self {w w' v : World σ ν} (holds : (sequential env c).Holds w w')
    (sites : v.frames.map Frame.site = w.frames.map Frame.site) : (sequential env c).Holds v v :=
  ⟨⟨rfl, sites ▸ holds.frames.2⟩, rfl, rfl, rfl, rfl, rfl, rfl⟩

theorem Holds.start (user : σ) : (sequential env c).Holds { user } { user } :=
  ⟨⟨rfl, List.forall_mem_nil _⟩, rfl, rfl, rfl, rfl, rfl, rfl⟩

end Coupling

def Settled (trace : List (Entry ν)) : Prop := ∀ payload, ¬ SupportPanics payload trace

theorem Settled.of_prefix {part trace : List (Entry ν)} (settled : Settled trace) (begins : part <+: trace) :
    Settled part := fun payload panics => settled payload (panics.mono fun _ member => begins.subset member)

/-- Wherever the run is, executing a tree makes one visit to its root. -/
theorem executes_from (t : TestTree σ ν) (w : World σ ν) : ∃ path told,
    (Telling.course True env path).Adds w ((Execution.execute t).goes env w).2 told ∧
      Ends (fun _ ds => ∃ d, ds = [d] ∧ Deed.Visits .executed (· = .ended) t d)
        (fun h ds => ∃ d, ds = [d] ∧ Deed.Visits .executed (· = .of h) t d)
        ((Execution.execute t).goes env w).1 told := by
  let path : List (Place σ ν) := w.frames.map fun f => ⟨f.site, [t]⟩
  refine ⟨path, executes_tree env t path (fun p member => ⟨?_, .inl trivial⟩) (fun _ _ => .inl trivial) w
    (by simp [path, Function.comp_def]) (.inl trivial)⟩
  obtain ⟨f, _, rfl⟩ := List.mem_map.mp (List.mem_of_mem_head? member)
  exact List.mem_singleton_self t

theorem adds_execute (t : TestTree σ ν) (w : World σ ν) :
    ∃ told, (Telling.raw True).Adds w ((Execution.execute t).goes env w).2 told := by
  obtain ⟨path, told, adds, -⟩ := executes_from t w
  exact ⟨_, adds.sites, adds.trace, fun _ _ => trivial, adds.abandoned⟩

theorem supportPanics_of_panicked {t : TestTree σ ν} {w : World σ ν} {payload : PanicPayload}
    (panicked : ((Execution.execute t).goes env w).1 = .error (.panicked payload)) :
    SupportPanics payload ((Execution.execute t).goes env w).2.trace.toList := by
  obtain ⟨path, told, adds, ends⟩ := executes_from t w
  rw [panicked] at ends
  obtain ⟨_, rfl, v, inside, rfl, _, _, _, torn⟩ := ends
  have lawful := (adds.lawful _ (List.mem_singleton_self _)).1.mono fun law => law.toLaw
  refine ((lawful.escapes v inside rfl torn).marked v.descriptor.node).mono fun e member => ?_
  rw [adds.trace]
  simp [Telling.course, Deed.entriesAll, Deed.entries, member]

theorem adds_executeEach {children : List (Child σ ν)}
    (each : ∀ x ∈ children, ∀ w, ∃ told, (Telling.raw True).Adds w (x.2.goes env w).2 told) :
    ∀ w, ∃ told, (Telling.raw True).Adds w ((executeEach children).goes env w).2 told := by
  induction children with
  | nil => exact fun w => ⟨[], .refl w⟩
  | cons x rest ih =>
    intro w
    have ⟨first, others⟩ := List.forall_mem_cons.mp each
    obtain ⟨told, adds⟩ := first w
    unfold executeEach
    rw [Engine.goes_bind]
    rcases ended : x.2.goes env w with ⟨_ | _, v⟩ <;> rw [ended] at adds
    · exact ⟨told, adds⟩
    · obtain ⟨more, further⟩ := ih others v
      exact ⟨told ++ more, adds.trans further⟩

theorem executeEach_append (xs ys : List (Child σ ν)) :
    executeEach (xs ++ ys) = executeEach xs >>= fun _ => executeEach ys := by
  induction xs with
  | nil => rfl
  | cons x xs ih =>
    obtain ⟨d, execute⟩ := x
    rw [List.cons_append, executeEach, executeEach, bind_assoc, ih]

/-- How a child is executed when its turn comes: a concurrent one contains its panics. -/
def inItsTurn (settings : Settings) (parent : Descriptor σ ν) (held : List String) (t : TestTree σ ν) : Child σ ν :=
  (t.descriptor,
    if runsConcurrently settings parent held t then Engine.contain (Execution.execute t) else Execution.execute t)

section
variable (settings : Settings) (parent : Descriptor σ ν) (held : List String) (t : TestTree σ ν)

theorem inItsTurn_snd (w : World σ ν) :
    ((inItsTurn settings parent held t).2.goes env w).2 = ((Execution.execute t).goes env w).2 := by
  unfold inItsTurn
  split <;> rfl

theorem adds_inItsTurn (w : World σ ν) :
    ∃ told, (Telling.raw True).Adds w ((inItsTurn settings parent held t).2.goes env w).2 told := by
  rw [inItsTurn_snd]
  exact adds_execute t w

/-- Where no provider panics that is asked for its support, there is nothing to contain. -/
theorem goes_inItsTurn {w : World σ ν} (settled : Settled ((Execution.execute t).goes env w).2.trace.toList) :
    (inItsTurn settings parent held t).2.goes env w = (Execution.execute t).goes env w := by
  unfold inItsTurn
  dsimp only
  split
  · show (Engine.contained ((Execution.execute t).goes env w).1, ((Execution.execute t).goes env w).2) = _
    rcases ended : (Execution.execute t).goes env w with ⟨h | _, v⟩
    · cases h with
      | panicked payload =>
        exact absurd (supportPanics_of_panicked (congrArg Prod.fst ended)) (settled payload)
      | late | blocked | endless | nesting => rfl
    · rfl
  · rfl

theorem goes_inItsTurn_cons (ts : List (TestTree σ ν)) (w : World σ ν) :
    (executeEach ((t :: ts).map (inItsTurn settings parent held))).goes env w =
      Engine.goingOn env (fun _ => executeEach (ts.map (inItsTurn settings parent held)))
        ((inItsTurn settings parent held t).2.goes env w) := Engine.goes_bind_goingOn ..

theorem told_inItsTurn_cons (ts : List (TestTree σ ν)) (w : World σ ν) :
    ((Execution.execute t).goes env w).2.trace.toList <+:
      ((executeEach ((t :: ts).map (inItsTurn settings parent held))).goes env w).2.trace.toList := by
  rw [goes_inItsTurn_cons, ← inItsTurn_snd settings parent held]
  rcases (inItsTurn settings parent held t).2.goes env w with ⟨_ | _, v⟩
  · exact List.prefix_rfl
  · obtain ⟨told, adds⟩ := adds_executeEach (List.forall_mem_map.mpr fun t _ => adds_inItsTurn settings parent held t) v
    exact ⟨told, adds.trace.symm⟩

end

section
variable {w : World σ ν} {f : Frame σ ν}

theorem isConcurrent_eq (lives : LivesAs env.settings f.descriptor f.lifecycle) (t : TestTree σ ν) :
    isConcurrent env.settings f t.descriptor = runsConcurrently env.settings f.descriptor f.held t := by
  unfold isConcurrent runsConcurrently sharesInstance
  cases found : f.descriptor.testClass? with
  | none => rfl
  | some c => simp [lives c found]

theorem goes_executeChildren (top : w.frames.head? = some f) (children : List (Child σ ν)) :
    (executeChildren children).goes env w =
      (executeEach (children.filter fun x => !isConcurrent env.settings f x.1) >>= fun _ =>
        executeEach ((children.filter fun x => isConcurrent env.settings f x.1).map fun x =>
          (x.1, Engine.contain x.2))).goes env w := by
  have here : Engine.top?.goes env w = (.ok (some f), w) := by
    rw [← top]
    rfl
  have settings : Engine.settings.goes env w = (.ok env.settings, w) := rfl
  unfold executeChildren
  rw [Engine.goes_bind, here]
  dsimp only
  rw [Engine.goes_bind, settings]
  simp only [List.partition_eq_filter_filter]
  rfl

/-- At a node, the children are executed in the order in which they take turns. -/
theorem goes_executeChildren_inTurns (top : w.frames.head? = some f)
    (lives : LivesAs env.settings f.descriptor f.lifecycle) (cs : List (TestTree σ ν)) :
    (executeChildren (childrenOf cs)).goes env w =
      (executeEach ((inTurns env.settings f.descriptor f.held cs).map
        (inItsTurn env.settings f.descriptor f.held))).goes env w := by
  have plain (t : TestTree σ ν) (member : t ∈ cs.filter (!runsConcurrently env.settings f.descriptor f.held ·)) :
      inItsTurn env.settings f.descriptor f.held t = (t.descriptor, Execution.execute t) := by
    have runs : runsConcurrently env.settings f.descriptor f.held t = false := by simpa using List.of_mem_filter member
    simp [inItsTurn, runs]
  have contained (t : TestTree σ ν) (member : t ∈ cs.filter (runsConcurrently env.settings f.descriptor f.held ·)) :
      inItsTurn env.settings f.descriptor f.held t = (t.descriptor, Engine.contain (Execution.execute t)) := by
    simp [inItsTurn, List.of_mem_filter member]
  rw [goes_executeChildren top, inTurns, List.map_append, executeEach_append, List.map_congr_left plain,
    List.map_congr_left contained]
  simp only [childrenOf_eq, List.filter_map, Function.comp_def, isConcurrent_eq lives, List.map_map]

/-- Without parallel execution, they are executed as they stand. -/
theorem goes_executeChildren_sequential (top : w.frames.head? = some f) (children : List (Child σ ν)) :
    (executeChildren children).goes (env.sequential c) w = (executeEach children).goes (env.sequential c) w := by
  have alone (d : Descriptor σ ν) : isConcurrent (env.sequential c).settings f d = false := by
    simp [isConcurrent, modeOf, Environment.sequential]
  rw [goes_executeChildren top]
  simp only [alone, Bool.not_false, List.filter_true, List.filter_false, List.map_nil]
  rw [← executeEach_append, List.append_nil]

end

/-- From coupled worlds, the run of the tree and that of the tree in its turns end alike, if no provider panics that is
asked for its support. -/
def TakesTurns (env : Environment σ ν) (c : Configuration) (t : TestTree σ ν) : Prop :=
  ∀ w w', (sequential env c).Holds w w' → Settled ((Execution.execute t).goes env w).2.trace.toList →
    ∃ t', Arranged env w t t' ∧ EndAlike (sequential env c).Holds w (w.frames.map Frame.site) Eq
      ((Execution.execute t).goes env w) ((Execution.execute t').goes (env.sequential c) w')

theorem executeEach_takesTurns {ts : List (TestTree σ ν)} (each : ∀ t ∈ ts, TakesTurns env c t) (settings : Settings)
    (parent : Descriptor σ ν) (held : List String) : ∀ w w', (sequential env c).Holds w w' →
    Settled ((executeEach (ts.map (inItsTurn settings parent held))).goes env w).2.trace.toList →
    ∃ ts', ArrangedAll env w ts ts' ∧ EndAlike (sequential env c).Holds w (w.frames.map Frame.site) Eq
      ((executeEach (ts.map (inItsTurn settings parent held))).goes env w)
      ((executeEach (childrenOf ts')).goes (env.sequential c) w') := by
  induction ts with
  | nil => exact fun w w' holds _ => ⟨[], .nil, .ok rfl, holds, rfl, List.prefix_rfl⟩
  | cons t ts ih =>
    intro w w' holds settled
    have ⟨first, others⟩ := List.forall_mem_cons.mp each
    have settledFirst := settled.of_prefix (told_inItsTurn_cons settings parent held t ts w)
    obtain ⟨t', arranged, alike⟩ := first w w' holds settledFirst
    have goes (ts' : List (TestTree σ ν)) : (executeEach (childrenOf (t' :: ts'))).goes (env.sequential c) w' =
        Engine.goingOn (env.sequential c) (fun _ => executeEach (childrenOf ts'))
          ((Execution.execute t').goes (env.sequential c) w') := Engine.goes_bind_goingOn ..
    rw [goes_inItsTurn_cons, goes_inItsTurn settings parent held t settledFirst] at settled ⊢
    rcases ended : (Execution.execute t).goes env w with ⟨outcome, v⟩
    rcases ended' : (Execution.execute t').goes (env.sequential c) w' with ⟨outcome', v'⟩
    rw [ended] at settled alike
    rw [ended'] at alike
    obtain ⟨agree, holds, there, grown⟩ := alike
    have next : ((Execution.execute t).goes env w).2 = v := by rw [ended]
    cases agree with
    | error h =>
      -- the others are not executed, and their order plays no part
      obtain ⟨ts', remaining⟩ := ArrangedAll.exists (fun t _ => Arranged.exists t) v
      refine ⟨t' :: ts', .cons arranged (next ▸ remaining), ?_⟩
      rw [goes, ended']
      exact ⟨.error h, holds, there, grown⟩
    | ok _ =>
      obtain ⟨ts', remaining, alike⟩ := ih others v v' holds settled
      rw [there] at alike
      refine ⟨t' :: ts', .cons arranged (next ▸ remaining), ?_⟩
      rw [goes, ended']
      exact { alike with grown := grown.trans alike.grown }

section
variable {v v' : World σ ν} {f : Frame σ ν} {cs : List (TestTree σ ν)}

theorem adds_executeChildren (cs : List (TestTree σ ν)) (top : v.frames.head? = some f)
    (lives : LivesAs env.settings f.descriptor f.lifecycle) :
    ∃ told, (Telling.raw True).Adds v ((executeChildren (childrenOf cs)).goes env v).2 told := by
  rw [goes_executeChildren_inTurns top lives]
  exact adds_executeEach (List.forall_mem_map.mpr fun t _ => adds_inItsTurn _ _ _ t) v

theorem executeChildren_takesTurns (each : ∀ t ∈ cs, TakesTurns env c t) (holds : (sequential env c).Holds v v')
    (top : v.frames.head? = some f) (lives : LivesAs env.settings f.descriptor f.lifecycle)
    (settled : Settled ((executeChildren (childrenOf cs)).goes env v).2.trace.toList) :
    ∃ turns, ArrangedAll env v (inTurns env.settings f.descriptor f.held cs) turns ∧
      EndAlike (sequential env c).Holds v (v.frames.map Frame.site) Eq ((executeChildren (childrenOf cs)).goes env v)
        ((executeChildren (childrenOf turns)).goes (env.sequential c) v') := by
  have same : v'.frames.head? = some f := by rw [holds.frames.1, top]
  rw [goes_executeChildren_inTurns top lives] at settled ⊢
  simp only [goes_executeChildren_sequential same]
  exact executeEach_takesTurns (fun t member => each t ((inTurns_perm ..).mem_iff.mp member)) _ _ _ v v' holds settled

end

theorem visit_congr {d : Descriptor σ ν} {subtree subtree' : List String}
    (locks : ∀ held, locksToTake d subtree' held = locksToTake d subtree held) (skip : String → Engine σ ν Unit)
    (body : Engine σ ν ExecutionResult) : visit d subtree' skip body = visit d subtree skip body := by
  unfold visit
  simp only [locks]

/-- What is done around the children does not depend on their order. -/
theorem executeAround_perm {d : Descriptor σ ν} {cs cs' : List (TestTree σ ν)}
    (same : (TestTree.preorderAll cs').Perm (TestTree.preorderAll cs)) (p : Descent σ ν) :
    executeAround (.node d cs') p = executeAround (.node d cs) p :=
  visit_congr (fun held => locksToTake_perm ((same.cons d).flatMap_right _) d held) _ _

def AtNode (settings : Settings) (d : Descriptor σ ν) (sites : List (Site σ ν)) : Prop :=
  ∃ s above, sites = s :: above ∧ Gates.IsAt settings d s

theorem AtNode.top {settings : Settings} {d : Descriptor σ ν} {w : World σ ν}
    (here : AtNode settings d (w.frames.map Frame.site)) :
    ∃ f, w.frames.head? = some f ∧ w.held = f.held ∧ f.descriptor = d ∧ LivesAs settings d f.lifecycle := by
  obtain ⟨s, above, sites, isAt⟩ := here
  obtain ⟨f, fs, frames, rfl, -⟩ := List.map_eq_cons_iff.mp sites
  refine ⟨f, by rw [frames]; rfl, ?_, isAt.descriptor, isAt.lives⟩
  rw [World.held, frames]
  rfl

theorem gates_around (root : env.registry.Blind (View.Reconfigured env.configuration c)) {t : TestTree σ ν}
    (blind : t.descriptor.Blind (View.Reconfigured env.configuration c)) (sites : List (Site σ ν)) :
    (sequential env c).Gates sites (AtNode env.settings t.descriptor) (executeAround t) (executeAround t) :=
  Gates.visit _ _ _ _ (sequential_nests root) blind (fun _ => rfl)
    (fun s here reason => Gates.goOn (some reason) ⟨s, sites, rfl, here⟩) fun s here _ =>
      Gates.body _ _ _ _ (sequential_nests root) blind (Gates.goOn none ⟨s, sites, rfl, here⟩)
        fun reason => Gates.goOn (some reason) ⟨s, sites, rfl, here⟩

/-- Executing a tree takes turns if the code of all its nodes is blind. -/
theorem execute_takesTurns (root : env.registry.Blind (View.Reconfigured env.configuration c)) (t : TestTree σ ν) :
    (∀ x ∈ t.preorder, x.Blind (View.Reconfigured env.configuration c)) → TakesTurns env c t := by
  induction t using TestTree.induct with
  | node d cs ih =>
    intro blind w w' holds settled
    have ⟨own, below⟩ := List.forall_mem_cons.mp blind
    cases gates_around root (t := .node d cs) own _ w w' holds rfl with
    | @closed r r' goes goes' alike =>
      have goes (p : Descent σ ν) : (executeAround (.node d cs) p).goes env w = r := goes p
      have goes' (p : Descent σ ν) : (executeAround (.node d cs) p).goes (env.sequential c) w' = r' := goes' p
      refine ⟨.node d cs, .kept fun v ⟨opening⟩ => opening.not_constant r goes, ?_⟩
      rw [execute_eq_around, goes, goes']
      exact alike
    | @opens way v v' here there inner inside alike =>
      have goes (p : Descent σ ν) : (executeAround (.node d cs) p).goes env w = here.after ((p way).goes env v) :=
        here.goes p
      have goes' (p : Descent σ ν) : (executeAround (.node d cs) p).goes (env.sequential c) w' =
          there.after ((p way).goes (env.sequential c) v') := there.goes p
      cases way with
      | some reason =>
        refine ⟨.node d cs, .kept fun v ⟨opening⟩ => absurd (here.unique opening).1 nofun, ?_⟩
        rw [execute_eq_around, goes, goes']
        exact (alike (Pairs.skipAll (sequential_nests root) cs below reason _ v v' inner rfl)).1
      | none =>
        obtain ⟨f, top, held, rfl, lives⟩ := inside.top
        have each (t : TestTree σ ν) (member : t ∈ cs) : TakesTurns env c t :=
          ih t member fun x among => below x (TestTree.preorderAll_eq cs ▸ List.mem_flatMap_of_mem member among)
        obtain ⟨told, adds⟩ := adds_executeChildren cs top lives
        -- what the children tell is told of the tree, whatever the other run does below
        have part := (alike (r := (executeChildren (childrenOf cs)).goes env v)
          ⟨.of_eq rfl, inner.self adds.sites, adds.sites, ⟨told, adds.trace.symm⟩⟩).2
        rw [execute_eq_around, goes] at settled
        obtain ⟨turns, arranged, ends⟩ := executeChildren_takesTurns each inner top lives (settled.of_prefix part)
        have same : (TestTree.preorderAll turns).Perm (TestTree.preorderAll cs) := by
          refine arranged.preorder_perm.trans ?_
          rw [TestTree.preorderAll_eq, TestTree.preorderAll_eq]
          exact (inTurns_perm ..).flatMap_right _
        refine ⟨.node f.descriptor turns, .executed ⟨here⟩ (held ▸ arranged), ?_⟩
        rw [execute_eq_around, execute_eq_around, executeAround_perm same, goes, goes']
        exact (alike ends).1

end TestEngine

import TestEngine.Proofs.Gates

/-! Nodes in two runs side by side: entering and leaving them, what is reported of them, and the life of classes. -/
namespace TestEngine.Coupling
variable {σ ν α β : Type} {b : Coupling σ ν} {sites : List (Site σ ν)} {A : α → β → Prop}

open Execution

def heldAt (sites : List (Site σ ν)) : List String := (sites.head?.map (·.held)).getD []

def registryAt (env : Environment σ ν) (sites : List (Site σ ν)) : Registry (Extension σ ν) :=
  (sites.head?.map (·.registry)).getD env.registry

/-- Watchers are told alike how a node ends, whichever watchers there are. -/
structure Announces (b : Coupling σ ν) : Prop where
  skipped : ∀ {sites} reason,
    b.Pairs sites Eq (notify fun w => w.disabled reason) (notify fun w => w.disabled reason)
  ended : ∀ {sites} r, b.Pairs sites Eq (notify (verdictOn r)) (notify (verdictOn r))

/-- Nodes may be entered and left, and further extensions registered, if their code is blind. -/
structure Nests (b : Coupling σ ν) : Prop extends b.Total where
  announces : b.Announces
  root : b.registry b.env.registry b.env'.registry
  registered : ∀ {r r'} scope {ds : List (Declared σ ν)}, b.registry r r' → (∀ x ∈ ds, x.extension.Blind b.view) →
    Agree b.registry (registerAll (r.child scope) ds) (registerAll (r'.child scope) ds)
  enters : ∀ {fs fs' r r' d} lifecycle held, b.frames fs fs' → b.registry r r' → d.Blind b.view →
    b.frames ({ descriptor := d, registry := r, lifecycle, held } :: fs)
      ({ descriptor := d, registry := r', lifecycle, held } :: fs')
  leaves : ∀ {f fs f' fs'}, b.frames (f :: fs) (f' :: fs') → b.frames fs fs'

namespace Nests
variable {d : Descriptor σ ν} {r r' : Registry (Extension σ ν)} {w w' : World σ ν}

theorem entered (nests : b.Nests) (blind : d.Blind b.view) (lifecycle : Lifecycle) (held : List String)
    (related : b.registry r r') (holds : b.Holds w w') :
    b.Holds { w with frames := { descriptor := d, registry := r, lifecycle, held } :: w.frames }
      { w' with frames := { descriptor := d, registry := r', lifecycle, held } :: w'.frames } :=
  { holds with frames := nests.enters lifecycle held holds.frames related blind }

theorem left (nests : b.Nests) {s : Site σ ν} (holds : b.Holds w w') (there : w.frames.map Frame.site = s :: sites) :
    b.Holds { w with frames := w.frames.tail } { w' with frames := w'.frames.tail } := by
  refine { holds with frames := ?_ }
  have related := holds.frames
  have faces := b.faces related
  obtain ⟨f, fs, frames, -, -⟩ := List.map_eq_cons_iff.mp there
  obtain ⟨f', fs', frames', -, -⟩ := List.map_eq_cons_iff.mp (frames ▸ faces)
  rw [frames, frames'] at related ⊢
  exact nests.leaves related

end Nests

/-- Two descriptors of one node: they differ in the code of methods at most. -/
structure Matches (b : Coupling σ ν) (d d' : Descriptor σ ν) : Prop where
  node : d'.node = d.node
  testClass? : d'.testClass? = d.testClass?
  locks : d'.locks = d.locks
  registers : ∀ {r r'}, b.registry r r' →
    Agree b.registry (registryFor b.env.settings d r) (registryFor b.env'.settings d' r')

theorem Matches.of_blind (nests : b.Nests) {d : Descriptor σ ν} (blind : d.Blind b.view) : b.Matches d d where
  node := rfl
  testClass? := rfl
  locks := rfl
  registers {r r'} related := by
    have own (r : Registry (Extension σ ν)) (settings : Settings) :
        registryFor settings d r = registerAll (r.child d.role.scope) (d.own settings) := rfl
    have same : d.own b.env'.settings = d.own b.env.settings := by
      unfold Descriptor.own Execution.hookOrder
      rw [b.hookOrder]
    rw [own, own, same]
    exact nests.registered _ related (blind.own _)

/-- The lifecycle that a node has: that of the class, if it is one. -/
def LivesAs (settings : Settings) (d : Descriptor σ ν) (lifecycle : Lifecycle) : Prop :=
  ∀ c, d.testClass? = some c → lifecycle = c.lifecycle.getD settings.defaultLifecycle

namespace Pairs
variable {d d' : Descriptor σ ν} {r r' : Registry (Extension σ ν)}

theorem currentRegistry (nests : b.Nests) :
    b.Pairs sites (fun r r' => b.registry r r' ∧ r = registryAt b.env sites) Engine.currentRegistry
      Engine.currentRegistry := by
  refine top?.bind fun f f' tops => ?_
  have current : registryAt b.env sites = (f.map (·.registry)).getD b.env.registry := by
    unfold registryAt
    rw [← tops.site, Option.map_map]
    rfl
  rw [current]
  cases f with
  | none =>
    cases f' with
    | none => exact fun _ _ holds there => ⟨.ok ⟨nests.root, rfl⟩, holds, there, List.prefix_rfl⟩
    | some f' => exact absurd tops.face nofun
  | some f =>
    cases f' with
    | none => exact absurd tops.face nofun
    | some f' => exact .pure ⟨tops.registry f rfl f' rfl, rfl⟩

theorem within (nests : b.Nests) (blind : d.Blind b.view) (lifecycle : Lifecycle) (held : List String)
    (related : b.registry r r') {m : Engine σ ν α} {m' : Engine σ ν β}
    (inside : b.Pairs (⟨d, r, lifecycle, held⟩ :: sites) A m m') :
    b.Pairs sites A (Engine.within { descriptor := d, registry := r, lifecycle, held } m)
      (Engine.within { descriptor := d, registry := r', lifecycle, held } m') :=
  Leads.within (fun _ _ holds _ => nests.entered blind lifecycle held related holds)
    (fun _ _ holds there => nests.left holds there) inside

end Pairs

namespace Gates
variable {d d' : Descriptor σ ν} {r r' : Registry (Extension σ ν)} {At : List (Site σ ν) → Prop}
  {F F' : Descent σ ν → Engine σ ν α}

theorem within (nests : b.Nests) (blind : d.Blind b.view) (lifecycle : Lifecycle) (held : List String)
    (related : b.registry r r') (inside : b.Gates (⟨d, r, lifecycle, held⟩ :: sites) At F F') :
    b.Gates sites At (fun p => Engine.within { descriptor := d, registry := r, lifecycle, held } (F p))
      fun p => Engine.within { descriptor := d, registry := r', lifecycle, held } (F' p) := by
  intro w w' holds there
  have left {v : World σ ν} {x x' : Except Halt α × World σ ν}
      (alike : EndAlike b.Holds v (⟨d, r, lifecycle, held⟩ :: sites) Eq x x') (trace : v.trace = w.trace) :
      EndAlike b.Holds w sites Eq (x.1, { x.2 with frames := x.2.frames.tail })
        (x'.1, { x'.2 with frames := x'.2.frames.tail }) :=
    ⟨alike.outcome, nests.left alike.holds alike.sites, by rw [List.map_tail, alike.sites]; rfl, trace ▸ alike.grown⟩
  cases inside _ _ (nests.entered blind lifecycle held related holds) (congrArg (_ :: ·) there) with
  | closed goes goes' alike =>
    exact .closed (fun p => by rw [Engine.goes_within, goes]) (fun p => by rw [Engine.goes_within, goes'])
      (left alike rfl)
  | opens here there holds inside alike =>
    exact .opens here.within there.within holds inside fun ends => ⟨left (alike ends).1 rfl, (alike ends).2⟩

theorem entering (same : d'.testClass? = d.testClass?) (held : List String)
    (h : ∀ lifecycle, LivesAs b.env.settings d lifecycle →
      b.Gates sites At (fun p => Engine.within { descriptor := d, registry := r, lifecycle, held } (F p))
        fun p => Engine.within { descriptor := d', registry := r', lifecycle, held } (F' p)) :
    b.Gates sites At (fun p => frameFor d r held >>= fun f => Engine.within f (F p))
      fun p => frameFor d' r' held >>= fun f => Engine.within f (F' p) := by
  simp only [frameFor, bind_assoc]
  refine after Pairs.settings fun s s' ⟨here, there⟩ => ?_
  refine after Pairs.top? fun f f' tops => ?_
  simp only [pure_bind]
  have above : f'.map (·.lifecycle) = f.map (·.lifecycle) := tops.part fun face => face.lifecycle
  have lifecycle : lifecycleOf s' d' f' = lifecycleOf s d f := by
    unfold lifecycleOf
    rw [same, above, here, there, b.defaultLifecycle]
  rw [lifecycle]
  refine h _ fun c found => ?_
  unfold lifecycleOf
  rw [found, here]

end Gates

namespace Pairs
variable {d d' : Descriptor σ ν} {r r' : Registry (Extension σ ν)}

theorem observe {p q : Program σ ν Unit} (alike : p.Alike b.view Eq q) :
    b.Pairs sites (Agree Eq) (Execution.observe p).run (Execution.observe q).run := by
  refine Pairs.bind (runs_blind alike) fun outcome outcome' agree => ?_
  cases agree with
  | ok => exact .pure (.ok rfl)
  | error payload => exact .pure (.error _)

theorem notify_of {tell tell' : Watcher σ ν → Program σ ν Unit}
    (watchers : b.Pairs sites
      (SameAnd fun es => ∀ e ∈ es, ∀ w ∈ e.watcher, (tell w).Alike b.view Eq (tell' w))
      (Engine.extensions .watcher) (Engine.extensions .watcher)) :
    b.Pairs sites Eq (Execution.notify tell) (Execution.notify tell') := by
  refine watchers.bind ?_
  rintro es _ ⟨rfl, alike⟩
  refine (collectBoth records_eq ?_ rfl).discard
  induction es with
  | nil => exact .nil
  | cons e es ih =>
    have ⟨here, others⟩ := List.forall_mem_cons.mp alike
    cases found : e.watcher with
    | none => simpa [found] using ih others
    | some w =>
      simp only [List.filterMap_cons, found, Option.map_some]
      exact .cons (step _ (observe (here w found))) (ih others)

theorem notify {tell tell' : Watcher σ ν → Program σ ν Unit} (covered : b.covers .watcher)
    (alike : ∀ w : Watcher σ ν, w.Blind b.view → (tell w).Alike b.view Eq (tell' w)) :
    b.Pairs sites Eq (Execution.notify tell) (Execution.notify tell') :=
  notify_of ((extensions covered).mono fun _ _ ⟨same, blind⟩ =>
    ⟨same, fun e among w found => alike w (blind e among w found)⟩)

/-- Watchers are told alike if their code is blind. -/
theorem announces (covered : b.covers .watcher) : b.Announces where
  skipped reason := notify covered fun w blind => blind.disabled reason
  ended r := notify covered fun w blind => by
    unfold verdictOn
    split
    · exact blind.successful
    · exact blind.aborted _
    · exact blind.failed _

theorem announce_of {tell tell' : Watcher σ ν → Program σ ν Unit} (same : d'.node = d.node)
    (h : b.Pairs sites Eq (Execution.notify tell) (Execution.notify tell')) :
    b.Pairs sites Eq (Execution.announce d tell) (Execution.announce d' tell') := by
  have kind : d'.kind = d.kind := congrArg Node.kind same
  unfold Execution.announce
  rw [kind]
  split
  · exact h
  · exact .pure rfl

theorem closeStore :
    b.Pairs sites (Agree Eq) (Execution.closeStore : Attempt σ ν Unit).run Execution.closeStore.run := by
  refine top?.lift_bind fun f f' tops => ?_
  have same : f'.map (·.store) = f.map (·.store) := tops.part fun face => face.store
  cases f with
  | none =>
    rw [Option.map_none, Option.map_eq_none_iff] at same
    rw [same]
    exact .pure (.ok rfl)
  | some f =>
    obtain ⟨f', rfl, equal⟩ := Option.map_eq_some_iff.mp same
    replace equal : f'.store = f.store := equal
    dsimp only
    rw [equal]
    refine (changeTop Store.close id id).lift_bind fun _ _ _ => step _ ?_
    rw [ExceptT.run_mk]
    exact (act _).mono fun _ _ => Agree.of_eq

theorem finish (announces : b.Announces) (same : d'.node = d.node) (r : ExecutionResult) :
    b.Pairs sites Eq (Execution.finish d r) (Execution.finish d' r) := by
  refine closeStore.bind fun outcome _ agree => ?_
  cases agree.eq
  refine (announce_of same (announces.ended _)).bind fun _ _ _ => ?_
  rw [same]
  exact report _ _

theorem registration (refusal : Option TestError) :
    b.Pairs sites (Agree Eq) (Execution.registration refusal : Attempt σ ν Unit).run
      (Execution.registration refusal).run := step _ (raising refusal)

theorem markTaken (taken : List String) (e : Entry ν) :
    b.Pairs sites Eq (Execution.markTaken taken e : Engine σ ν Unit) (Execution.markTaken taken e) := by
  unfold Execution.markTaken
  cases taken.isEmpty
  · exact append e
  · exact .pure rfl

end Pairs

theorem locksToTake_congr {d d' : Descriptor σ ν} (same : d'.locks = d.locks) (subtree held : List String) :
    locksToTake d' subtree held = locksToTake d subtree held := by
  unfold locksToTake
  rw [same]

namespace Gates
variable {d d' : Descriptor σ ν} {At : List (Site σ ν) → Prop} {skips skips' : Descent σ ν → String → Engine σ ν Unit}
  {body body' : Descent σ ν → Engine σ ν ExecutionResult}

theorem reportSkipped (announces : b.Announces) (same : d'.node = d.node) (reason : String)
    {F F' : Descent σ ν → Engine σ ν Unit} (below : b.Gates sites At F F') :
    b.Gates sites At (fun p => Execution.reportSkipped d reason (F p))
      fun p => Execution.reportSkipped d' reason (F' p) := by
  unfold Execution.reportSkipped
  rw [same]
  refine after (Pairs.report _ _) fun _ _ _ => ?_
  refine after (Pairs.announce_of same (announces.skipped reason)) fun _ _ _ => ?_
  exact below.bind fun _ => Pairs.closeStore.discard

theorem refused (skips skips' : Descent σ ν → String → Engine σ ν Unit)
    (announces : b.Announces) (same : d'.node = d.node) (e : TestError)
    (below : ∀ reason, b.Gates sites At (skips · reason) (skips' · reason)) :
    b.Gates sites At (fun p => Execution.refused d e (skips p)) fun p => Execution.refused d' e (skips' p) := by
  unfold Execution.refused
  rw [same]
  refine after (Pairs.registration _).discard fun _ _ _ => after (Pairs.report _ _) fun _ _ _ => ?_
  exact (below _).bind fun _ => Pairs.finish announces same _

theorem admitted (announces : b.Announces) (same : d'.node = d.node)
    (below : ∀ reason, b.Gates sites At (skips · reason) (skips' · reason)) (bodies : b.Gates sites At body body') :
    b.Gates sites At (fun p => Execution.admitted d (skips p) (body p))
      fun p => Execution.admitted d' (skips' p) (body' p) := by
  unfold Execution.admitted
  rw [same]
  refine after (Pairs.registration _).discard fun _ _ _ => after Pairs.evaluateConditions fun verdict _ agree => ?_
  cases agree.eq
  split
  · exact reportSkipped announces same _ (below _)
  · exact after (Pairs.report _ _) fun _ _ _ => bodies.bind fun _ => Pairs.finish announces same _
  · exact after (Pairs.report _ _) fun _ _ _ => (below _).bind fun _ => Pairs.finish announces same _

variable (skips skips' body body')

/-- Nodes that match are visited alike if what they do inside is. -/
theorem visit_of (nests : b.Nests) (alike : b.Matches d d') {subtree subtree' : List String}
    (locks : ∀ held, locksToTake d' subtree' held = locksToTake d subtree held)
    (refuses : ∀ {r r'} lifecycle e, b.registry r r' → LivesAs b.env.settings d lifecycle →
      let held := heldAt sites ++ locksToTake d subtree (heldAt sites)
      b.Gates sites At
        (fun p => Engine.within { descriptor := d, registry := r, lifecycle, held } (Execution.refused d e (skips p)))
        fun p => Engine.within { descriptor := d', registry := r', lifecycle, held }
          (Execution.refused d' e (skips' p)))
    (admits : ∀ {r r'} lifecycle, registryFor b.env.settings d (registryAt b.env sites) = .ok r → b.registry r r' →
      LivesAs b.env.settings d lifecycle →
      let held := heldAt sites ++ locksToTake d subtree (heldAt sites)
      b.Gates sites At
        (fun p => Engine.within { descriptor := d, registry := r, lifecycle, held }
          (Execution.admitted d (skips p) (body p)))
        fun p => Engine.within { descriptor := d', registry := r', lifecycle, held }
          (Execution.admitted d' (skips' p) (body' p))) :
    b.Gates sites At (fun p => Execution.visit d subtree (skips p) (body p))
      fun p => Execution.visit d' subtree' (skips' p) (body' p) := by
  unfold Execution.visit
  refine after Pairs.top? fun f f' tops => ?_
  have held : f'.map (·.held) = f.map (·.held) := tops.part fun face => face.held
  have there : (f.map (·.held)).getD [] = heldAt sites := by
    unfold heldAt
    rw [← tops.site, Option.map_map]
    rfl
  have id : d'.id = d.id := congrArg Node.id alike.node
  rw [held, there]
  dsimp only
  rw [locks, id]
  unfold holding
  refine after (Pairs.markTaken _ _) fun _ _ _ => bind ?_ fun _ => Pairs.markTaken _ _
  refine after (Pairs.currentRegistry nests) fun r r' ⟨related, current⟩ => ?_
  refine after Pairs.settings fun s s' ⟨here, there⟩ => ?_
  rw [here, there]
  have agree := alike.registers related
  cases registered : registryFor b.env.settings d r with
  | error e =>
    rw [registered] at agree
    rw [agree.of_error]
    exact entering alike.testClass? _ fun lifecycle lives => refuses lifecycle _ related lives
  | ok own =>
    rw [registered] at agree
    obtain ⟨own', registered', related⟩ := agree.of_ok
    rw [registered']
    exact entering alike.testClass? _ fun lifecycle lives => admits lifecycle (current ▸ registered) related lives

/-- The site is that of the node, with its lifecycle. -/
structure IsAt (settings : Settings) (d : Descriptor σ ν) (s : Site σ ν) : Prop where
  descriptor : s.descriptor = d
  lives : LivesAs settings d s.lifecycle

/-- A node is visited alike if its body is executed alike, at its own site. -/
theorem visit (nests : b.Nests) (blind : d.Blind b.view) {subtree subtree' : List String}
    (locks : ∀ held, locksToTake d subtree' held = locksToTake d subtree held)
    (below : ∀ s, IsAt b.env.settings d s → ∀ reason,
      b.Gates (s :: sites) At (skips · reason) (skips' · reason))
    (bodies : ∀ s, IsAt b.env.settings d s →
      registryFor b.env.settings d (registryAt b.env sites) = .ok s.registry → b.Gates (s :: sites) At body body') :
    b.Gates sites At (fun p => Execution.visit d subtree (skips p) (body p))
      fun p => Execution.visit d subtree' (skips' p) (body' p) :=
  visit_of skips skips' body body' nests (.of_blind nests blind) locks
    (fun lifecycle e related lives =>
      within nests blind lifecycle _ related (refused skips skips' nests.announces rfl e (below _ ⟨rfl, lives⟩)))
    fun lifecycle registered related lives =>
      within nests blind lifecycle _ related
        (admitted nests.announces rfl (below _ ⟨rfl, lives⟩) (bodies _ ⟨rfl, lives⟩ registered))

end Gates

namespace Pairs
variable {d d' : Descriptor σ ν} {skips skips' : String → Engine σ ν Unit} {body body' : Engine σ ν ExecutionResult}

theorem reportSkipped (announces : b.Announces) (same : d'.node = d.node) (reason : String)
    {below below' : Engine σ ν Unit} (h : b.Pairs sites Eq below below') :
    b.Pairs sites Eq (Execution.reportSkipped d reason below) (Execution.reportSkipped d' reason below') :=
  (Gates.reportSkipped announces same reason (.of_pairs h)).pairs

theorem refused (announces : b.Announces) (same : d'.node = d.node)
    (e : TestError) (below : ∀ reason, b.Pairs sites Eq (skips reason) (skips' reason)) :
    b.Pairs sites Eq (Execution.refused d e skips) (Execution.refused d' e skips') :=
  (Gates.refused (fun _ => skips) (fun _ => skips') announces same e fun reason => .of_pairs (below reason)).pairs

theorem visit (nests : b.Nests) (blind : d.Blind b.view) {subtree subtree' : List String}
    (locks : ∀ held, locksToTake d subtree' held = locksToTake d subtree held)
    (below : ∀ sites reason, b.Pairs sites Eq (skips reason) (skips' reason))
    (bodies : ∀ s, registryFor b.env.settings d (registryAt b.env sites) = .ok s.registry →
      b.Pairs (s :: sites) Eq body body') :
    b.Pairs sites Eq (Execution.visit d subtree skips body) (Execution.visit d subtree' skips' body') :=
  (Gates.visit (fun _ => skips) (fun _ => skips') (fun _ => body) (fun _ => body') nests blind locks
    (fun _ _ reason => .of_pairs (below _ reason))
    fun s _ registered => .of_pairs (bodies s registered)).pairs

theorem visitSkipped_of (nests : b.Nests) (alike : b.Matches d d') (reason : String) {below below' : Engine σ ν Unit}
    (h : ∀ {r r'} lifecycle, b.registry r r' → LivesAs b.env.settings d lifecycle →
      b.Pairs sites Eq
        (Engine.within { descriptor := d, registry := r, lifecycle, held := [] }
          (Execution.reportSkipped d reason below))
        (Engine.within { descriptor := d', registry := r', lifecycle, held := [] }
          (Execution.reportSkipped d' reason below'))) :
    b.Pairs sites Eq (Execution.visitSkipped d reason below) (Execution.visitSkipped d' reason below') := by
  refine (currentRegistry nests).bind fun r r' ⟨related, _⟩ => settings.bind fun s s' ⟨here, there⟩ => ?_
  rw [here, there]
  refine (Gates.entering alike.testClass? _ fun lifecycle lives => .of_pairs (h lifecycle ?_ lives)).pairs
  -- extensions that cannot be registered leave the registry of the node above
  have agree := alike.registers related
  revert agree
  generalize registryFor b.env.settings d r = made
  generalize registryFor b.env'.settings d' r' = made'
  rintro (⟨own⟩ | ⟨e⟩)
  · assumption
  · exact related

theorem visitSkipped (nests : b.Nests) (blind : d.Blind b.view) (reason : String) {below below' : Engine σ ν Unit}
    (h : ∀ sites, b.Pairs sites Eq below below') :
    b.Pairs sites Eq (Execution.visitSkipped d reason below) (Execution.visitSkipped d reason below') :=
  visitSkipped_of nests (.of_blind nests blind) reason fun lifecycle related _ =>
    within nests blind lifecycle [] related (reportSkipped nests.announces rfl reason (h _))

mutual
theorem skip (nests : b.Nests) : (t : TestTree σ ν) → (∀ x ∈ t.preorder, x.Blind b.view) → (reason : String) →
    ∀ sites, b.Pairs sites Eq (Execution.skip t reason) (Execution.skip t reason)
  | .node _ cs, blind, reason, _ =>
    have ⟨own, below⟩ := List.forall_mem_cons.mp blind
    visitSkipped nests own reason fun sites => skipAll nests cs below reason sites
theorem skipAll (nests : b.Nests) : (ts : List (TestTree σ ν)) →
    (∀ x ∈ TestTree.preorderAll ts, x.Blind b.view) → (reason : String) →
    ∀ sites, b.Pairs sites Eq (Execution.skipAll ts reason) (Execution.skipAll ts reason)
  | [], _, _, _ => .pure rfl
  | t :: ts, blind, reason, _ =>
    have ⟨first, others⟩ := List.forall_mem_append.mp blind
    (skip nests t first reason _).bind fun _ _ _ => skipAll nests ts others reason _
end

theorem setUp (total : b.Total) (c : TestClass σ ν) (lifecycle : Lifecycle) :
    b.Pairs sites (Agree Eq) (Execution.setUp c lifecycle).run (Execution.setUp c lifecycle).run := by
  refine (check _).attempt_bind fun _ _ _ => ?_
  cases lifecycle with
  | perMethod => exact .pure (.ok rfl)
  | perClass => exact instantiate total

theorem hooksOf (capability : Capability) (c : TestClass σ ν) {hooks : List (Method σ ν Unit)}
    (blind : ∀ m ∈ hooks, m.Blind b.view) :
    b.Pairs sites (SameAnd (b.Steps sites)) (Execution.hooksOf capability c hooks)
      (Execution.hooksOf capability c hooks) := by
  refine settings.bind fun s s' ⟨here, there⟩ => .pure ?_
  have same : Execution.hookOrder s' c = Execution.hookOrder s c := by
    unfold Execution.hookOrder
    rw [here, there, b.hookOrder]
  rw [same]
  refine ⟨rfl, fun code member => ?_⟩
  obtain ⟨m, among, rfl⟩ := List.mem_map.mp member
  exact invokeOnClass _ _ (blind m (mem_orderHooks among))

end Pairs

namespace Gates
variable {At : List (Site σ ν) → Prop} {children children' : Descent σ ν → Engine σ ν Unit}
  {skips skips' : Descent σ ν → String → Engine σ ν Unit}

theorem childrenUnless (c : Collector) (executes : b.Gates sites At children children')
    (below : ∀ reason, b.Gates sites At (skips · reason) (skips' · reason)) :
    b.Gates sites At (fun p => Execution.childrenUnless c (children p) (skips p))
      fun p => Execution.childrenUnless c (children' p) (skips' p) := by
  unfold Execution.childrenUnless
  split
  · exact executes
  · exact below _

theorem classSteps (total : b.Total) {c : TestClass σ ν} (blind : c.Blind b.view)
    (executes : b.Gates sites At children children')
    (below : ∀ reason, b.Gates sites At (skips · reason) (skips' · reason)) :
    b.Gates sites At (fun p => Execution.classSteps c (children p) (skips p))
      fun p => Execution.classSteps c (children' p) (skips' p) := by
  have first (c' : Collector) : b.Pairs sites Eq
      (do Execution.collectUntilError c' (← Execution.hooksOf .beforeAll c c.beforeAll))
      (do Execution.collectUntilError c' (← Execution.hooksOf .beforeAll c c.beforeAll)) := by
    refine (Pairs.hooksOf _ _ fun m member => blind.hooks m (by simp [member])).bind ?_
    rintro steps _ ⟨rfl, each⟩
    exact .collectUntilError each
  have last (c' : Collector) : b.Pairs sites Eq
      (do Execution.collectAll c' (← Execution.hooksOf .afterAll c c.afterAll))
      (do Execution.collectAll c' (← Execution.hooksOf .afterAll c c.afterAll)) := by
    refine (Pairs.hooksOf _ _ fun m member => blind.hooks m (by simp [member])).bind ?_
    rintro steps _ ⟨rfl, each⟩
    exact .collectAll records_eq rfl each
  unfold Execution.classSteps
  refine after (Pairs.callbacks (total.covers _ (by decide))) ?_
  rintro steps _ ⟨rfl, each⟩
  refine after (.collectUntilError each) fun entered _ same => ?_
  subst same
  refine after (.proceedIf (first entered)) fun before _ same => ?_
  subst same
  refine (childrenUnless before executes below).bind fun _ => ?_
  refine Pairs.bind (.proceedIf (last before)) fun after _ same => ?_
  subst same
  refine Pairs.bind (.callbacks (total.covers _ (by decide))) ?_
  rintro steps _ ⟨rfl, each⟩
  exact .collectAll records_eq rfl each

theorem executeClass (total : b.Total) {c : TestClass σ ν} (blind : c.Blind b.view) (lifecycle : Lifecycle)
    (executes : b.Gates sites At children children')
    (below : ∀ reason, b.Gates sites At (skips · reason) (skips' · reason)) :
    b.Gates sites At (fun p => Execution.executeClass c lifecycle (children p) (skips p))
      fun p => Execution.executeClass c lifecycle (children' p) (skips' p) := by
  unfold Execution.executeClass
  refine after (Pairs.setUp total c lifecycle) fun outcome _ agree => ?_
  cases agree.eq
  split
  · exact (childrenUnless _ executes below).bind fun _ => .pure rfl
  · refine (classSteps total blind executes below).bind fun gathered => ?_
    refine Pairs.bind (.collect records_eq rfl (.destroy (total.covers _ (by decide)) _)) fun c _ same => ?_
    subst same
    exact .pure rfl

end Gates
end TestEngine.Coupling

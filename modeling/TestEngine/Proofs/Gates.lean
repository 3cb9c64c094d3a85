import TestEngine.Proofs.Pairing

/-! Code that leaves open what is done below a node. It comes to that once at most, and then has the children executed,
or has them skipped for a reason; in which of these ways does not depend on what is done there. -/
namespace TestEngine
variable {σ ν α β γ : Type}

/-- What is done below a node: the children are executed, unless there is a reason to skip them. -/
abbrev Descent (σ ν : Type) := Option String → Engine σ ν Unit

def descent (children : Engine σ ν Unit) (skip : String → Engine σ ν Unit) : Descent σ ν
  | none => children
  | some reason => skip reason

/-- How code ends that goes on with `k` where other code has come to this end. -/
def Engine.goingOn (env : Environment σ ν) (k : α → Engine σ ν β) :
    Except Halt α × World σ ν → Except Halt β × World σ ν
  | (.ok a, w) => (k a).goes env w
  | (.error h, w) => (.error h, w)

theorem Engine.goes_bind_goingOn (m : Engine σ ν α) (k : α → Engine σ ν β) (env : Environment σ ν) (w : World σ ν) :
    (m >>= k).goes env w = goingOn env k (m.goes env w) := by
  rw [goes_bind]
  rcases m.goes env w with ⟨_ | _, _⟩ <;> rfl

theorem Engine.goingOn_error {env : Environment σ ν} {k : α → Engine σ ν β} {r : Except Halt α × World σ ν} {h : Halt}
    (broken : r.1 = .error h) : (goingOn env k r).1 = .error h := by
  obtain ⟨_, _⟩ := r
  subst broken
  rfl

/-- From the world `w` the code comes to what is done below in this way, and comes to it in the world `v`. All that it
makes of it is how that ends, and if that is broken off then so is the code. -/
structure Opening (env : Environment σ ν) (F : Descent σ ν → Engine σ ν α) (w : World σ ν) (way : Option String)
    (v : World σ ν) where
  after : Except Halt Unit × World σ ν → Except Halt α × World σ ν
  goes : ∀ p, (F p).goes env w = after ((p way).goes env v)
  broken : ∀ h u, (after (.error h, u)).1 = .error h

namespace Opening
variable {env : Environment σ ν} {F : Descent σ ν → Engine σ ν α} {w v : World σ ν} {way : Option String}

/-- There is one way at most, and one world in which the code comes to it. -/
theorem unique {way' : Option String} {v' : World σ ν} (here : Opening env F w way v)
    (there : Opening env F w way' v') : way' = way ∧ v' = v := by
  classical
  -- what is broken off for one cause at the one place, and for another cause elsewhere
  let p : Descent σ ν := fun x _ => ExceptT.mk fun u => (.error (if x = way ∧ u = v then .blocked else .late), u)
  have goes (x : Option String) (u : World σ ν) :
      (p x).goes env u = (.error (if x = way ∧ u = v then .blocked else .late), u) := rfl
  by_contra other
  have blocked : ((F p).goes env w).1 = .error .blocked := by
    rw [here.goes, goes, if_pos ⟨rfl, rfl⟩]
    exact here.broken _ _
  have late : ((F p).goes env w).1 = .error .late := by
    rw [there.goes, goes, if_neg other]
    exact there.broken _ _
  exact absurd (blocked.symm.trans late) nofun

/-- Code that comes to what is done below depends on it. -/
theorem not_constant (opening : Opening env F w way v) (r : Except Halt α × World σ ν) :
    ¬ ∀ p, (F p).goes env w = r := by
  intro same
  have broken (h : Halt) : r.1 = .error h := by
    rw [← same fun _ => Engine.halt h, opening.goes]
    exact opening.broken h v
  exact absurd ((broken .late).symm.trans (broken .blocked)) nofun

def here (way : Option String) (w : World σ ν) : Opening env (fun p => p way) w way w :=
  ⟨id, fun _ => rfl, fun _ _ => rfl⟩

def behind {m : Engine σ ν β} {G : β → Descent σ ν → Engine σ ν α} {u : World σ ν} {a : β}
    (ended : m.goes env u = (.ok a, w)) (opening : Opening env (G a) w way v) :
    Opening env (fun p => m >>= fun a => G a p) u way v where
  after := opening.after
  goes p := by rw [Engine.goes_bind, ended]; exact opening.goes p
  broken := opening.broken

/-- There is code that follows. -/
def bind (opening : Opening env F w way v) (k : α → Engine σ ν β) : Opening env (fun p => F p >>= k) w way v where
  after r := Engine.goingOn env k (opening.after r)
  goes p := by rw [Engine.goes_bind_goingOn, opening.goes]
  broken h u := Engine.goingOn_error (opening.broken h u)

/-- The code is that at a node below. -/
def within {f : Frame σ ν} (opening : Opening env F { w with frames := f :: w.frames } way v) :
    Opening env (fun p => Engine.within f (F p)) w way v where
  after r := ((opening.after r).1, { (opening.after r).2 with frames := (opening.after r).2.frames.tail })
  goes p := by rw [Engine.goes_within, opening.goes]
  broken h u := opening.broken h u

end Opening

namespace Coupling
variable {b : Coupling σ ν} {sites : List (Site σ ν)}

/-- Two runs of code with an opening end alike whatever is done below. Or else both come to what is done below in one
way, in related worlds at sites `At`, and end alike if that does; what is told there is told. -/
inductive Gate (b : Coupling σ ν) (sites : List (Site σ ν)) (At : List (Site σ ν) → Prop)
    (F F' : Descent σ ν → Engine σ ν α) (w w' : World σ ν) : Prop where
  | closed {r r'} (goes : ∀ p, (F p).goes b.env w = r) (goes' : ∀ p, (F' p).goes b.env' w' = r')
      (alike : EndAlike b.Holds w sites Eq r r')
  | opens {way v v'} (here : Opening b.env F w way v) (there : Opening b.env' F' w' way v') (holds : b.Holds v v')
      (inside : At (v.frames.map Frame.site))
      (alike : ∀ {r r'}, EndAlike b.Holds v (v.frames.map Frame.site) Eq r r' →
        EndAlike b.Holds w sites Eq (here.after r) (there.after r') ∧
          r.2.trace.toList <+: (here.after r).2.trace.toList)

def Gates (b : Coupling σ ν) (sites : List (Site σ ν)) (At : List (Site σ ν) → Prop)
    (F F' : Descent σ ν → Engine σ ν α) : Prop :=
  ∀ w w', b.Holds w w' → w.frames.map Frame.site = sites → b.Gate sites At F F' w w'

namespace Gates
variable {At : List (Site σ ν) → Prop} {F F' : Descent σ ν → Engine σ ν α}

theorem of_pairs {m m' : Engine σ ν α} (h : b.Pairs sites Eq m m') : b.Gates sites At (fun _ => m) fun _ => m' :=
  fun w w' holds there => .closed (fun _ => rfl) (fun _ => rfl) (h w w' holds there)

theorem goOn (way : Option String) (here : At sites) : b.Gates sites At (fun p => p way) fun p => p way :=
  fun w w' holds there => .opens (.here way w) (.here way w') holds (there ▸ here) fun alike =>
    ⟨there ▸ alike, List.prefix_rfl⟩

/-- Code that goes on below is paired with other such code if what is done there is. -/
theorem fill (gates : b.Gates sites At F F') {p p' : Descent σ ν}
    (below : ∀ way inner, At inner → b.Pairs inner Eq (p way) (p' way)) : b.Pairs sites Eq (F p) (F' p') := by
  intro w w' holds there
  cases gates w w' holds there with
  | closed goes goes' alike =>
    rw [goes, goes']
    exact alike
  | opens here there holds inside alike =>
    rw [here.goes, there.goes]
    exact (alike (below _ _ inside _ _ holds rfl)).1

theorem pairs {m m' : Engine σ ν α} (gates : b.Gates sites (fun _ => True) (fun _ => m) fun _ => m') :
    b.Pairs sites Eq m m' :=
  have below (_ : Option String) (inner : List (Site σ ν)) (_ : True) :
      b.Pairs inner Eq (Engine.halt .late : Engine σ ν Unit) (Engine.halt .late) := .halt _
  gates.fill below

/-- Code in front of what goes on below. -/
theorem after {m : Engine σ ν β} {m' : Engine σ ν γ} {A : β → γ → Prop} {G : β → Descent σ ν → Engine σ ν α}
    {G' : γ → Descent σ ν → Engine σ ν α} (first : b.Pairs sites A m m')
    (rest : ∀ a a', A a a' → b.Gates sites At (G a) (G' a')) :
    b.Gates sites At (fun p => m >>= fun a => G a p) fun p => m' >>= fun a => G' a p := by
  intro w w' holds there
  have alike := first w w' holds there
  rcases ended : m.goes b.env w with ⟨outcome, v⟩
  rcases ended' : m'.goes b.env' w' with ⟨outcome', v'⟩
  rw [ended, ended'] at alike
  obtain ⟨agree, holds, there, grown⟩ := alike
  cases agree with
  | error e =>
    exact .closed (fun p => by rw [Engine.goes_bind, ended]) (fun p => by rw [Engine.goes_bind, ended'])
      ⟨.error e, holds, there, grown⟩
  | @ok a a' related =>
    cases rest a a' related v v' holds there with
    | closed goes goes' alike =>
      refine .closed (fun p => ?_) (fun p => ?_) { alike with grown := grown.trans alike.grown }
      · rw [Engine.goes_bind, ended]
        exact goes p
      · rw [Engine.goes_bind, ended']
        exact goes' p
    | opens here there holds inside alike =>
      exact .opens (here.behind ended) (there.behind ended') holds inside fun ends =>
        have ⟨alike, behind⟩ := alike ends
        ⟨{ alike with grown := grown.trans alike.grown }, behind⟩

theorem goingOn {k k' : α → Engine σ ν β} {w : World σ ν} {r r' : Except Halt α × World σ ν}
    (alike : EndAlike b.Holds w sites Eq r r') (rest : ∀ a, b.Pairs sites Eq (k a) (k' a)) :
    EndAlike b.Holds w sites Eq (Engine.goingOn b.env k r) (Engine.goingOn b.env' k' r') ∧
      r.2.trace.toList <+: (Engine.goingOn b.env k r).2.trace.toList := by
  obtain ⟨outcome, v⟩ := r
  obtain ⟨outcome', v'⟩ := r'
  obtain ⟨agree, holds, there, grown⟩ := alike
  cases agree with
  | error e => exact ⟨⟨.error e, holds, there, grown⟩, List.prefix_rfl⟩
  | @ok a a' same =>
    subst same
    have alike := rest a v v' holds there
    exact ⟨{ alike with grown := grown.trans alike.grown }, alike.grown⟩

/-- Code behind what goes on below. -/
theorem bind {k k' : α → Engine σ ν β} (first : b.Gates sites At F F') (rest : ∀ a, b.Pairs sites Eq (k a) (k' a)) :
    b.Gates sites At (fun p => F p >>= k) fun p => F' p >>= k' := by
  intro w w' holds there
  cases first w w' holds there with
  | closed goes goes' alike =>
    exact .closed (fun p => by rw [Engine.goes_bind_goingOn, goes]) (fun p => by rw [Engine.goes_bind_goingOn, goes'])
      (goingOn alike rest).1
  | opens here there holds inside alike =>
    refine .opens (here.bind k) (there.bind k') holds inside fun ends => ?_
    have ⟨alike, behind⟩ := alike ends
    have ⟨alike, further⟩ := goingOn alike rest
    exact ⟨alike, behind.trans further⟩

end Gates
end Coupling
end TestEngine

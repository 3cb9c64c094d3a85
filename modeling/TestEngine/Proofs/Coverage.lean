import TestEngine.Proofs.Containment
import TestEngine.Proofs.Identifiers

/-! Which of the declared nodes a run comes to. What is declared below a test, a template or a factory is passed
over with it, but where such a node is entered it expands by itself, and what is declared below is left out. -/
namespace TestEngine
variable {σ ν : Type}

namespace TestTree

/-- The tree is declared below the root of the other, as a child or further down. -/
inductive Under (t : TestTree σ ν) : TestTree σ ν → Prop where
  | child : t ∈ p.children → Under t p
  | deeper : c ∈ p.children → Under t c → Under t p

def Among (t p : TestTree σ ν) : Prop := t = p ∨ t.Under p

variable {t p : TestTree σ ν}

theorem Among.under {c : TestTree σ ν} (h : t.Among c) (child : c ∈ p.children) : t.Under p := by
  rcases h with rfl | under
  · exact .child child
  · exact .deeper child under

theorem Under.trans {c : TestTree σ ν} (first : t.Under c) (second : c.Under p) : t.Under p := by
  induction second with
  | child member => exact .deeper member first
  | deeper member _ ih => exact .deeper member ih

theorem Under.among {c : TestTree σ ν} (first : t.Under c) (second : c.Among p) : t.Under p := by
  rcases second with rfl | under
  · exact first
  · exact first.trans under

theorem ids_eq (t : TestTree σ ν) : ids t = t.descriptor.id :: idsAll t.children := by
  cases t
  rfl

theorem ids_subset {c : TestTree σ ν} {ts : List (TestTree σ ν)} (member : c ∈ ts) : ids c ⊆ idsAll ts := by
  induction ts with
  | nil => contradiction
  | cons u us ih =>
    rw [idsAll_cons]
    rcases List.mem_cons.mp member with rfl | later
    · exact List.subset_append_left _ _
    · exact List.Subset.trans (ih later) (List.subset_append_right _ _)

theorem Under.id_mem (h : t.Under p) : t.descriptor.id ∈ idsAll p.children := by
  induction h with
  | child member => exact roots_mem_idsAll member
  | @deeper c p member _ ih =>
    refine ids_subset member ?_
    rw [ids_eq]
    exact List.mem_cons_of_mem _ ih

theorem Among.id_mem (h : t.Among p) : t.descriptor.id ∈ ids p := by
  rcases h with rfl | under
  · exact id_mem_ids t
  · rw [ids_eq]
    exact List.mem_cons_of_mem _ under.id_mem

theorem Under.ne (h : t.Under p) (distinct : (ids p).Nodup) : t ≠ p := by
  rintro rfl
  rw [ids_eq] at distinct
  exact (List.nodup_cons.mp distinct).1 h.id_mem

theorem idsAll_nodup (distinct : (ids p).Nodup) : (idsAll p.children).Nodup := by
  rw [ids_eq] at distinct
  exact (List.nodup_cons.mp distinct).2

theorem child_nodup {c : TestTree σ ν} {ts : List (TestTree σ ν)} (distinct : (idsAll ts).Nodup)
    (member : c ∈ ts) : (ids c).Nodup := by
  induction ts with
  | nil => contradiction
  | cons u us ih =>
    rw [idsAll_cons, List.nodup_append'] at distinct
    rcases List.mem_cons.mp member with rfl | later
    · exact distinct.1
    · exact ih distinct.2.1 later

theorem roots_nodup {ts : List (TestTree σ ν)} (distinct : (idsAll ts).Nodup) :
    (ts.map (·.descriptor.id)).Nodup := by
  induction ts with
  | nil => exact .nil
  | cons u us ih =>
    rw [idsAll_cons, List.nodup_append'] at distinct
    refine List.nodup_cons.mpr ⟨fun shared => ?_, ih distinct.2.1⟩
    obtain ⟨c, member, same⟩ := List.mem_map.mp shared
    have same : c.descriptor.id = u.descriptor.id := same
    exact distinct.2.2 (id_mem_ids u) (same ▸ roots_mem_idsAll member)

/-- Trees side by side have nothing in common. -/
theorem side_unique {c c' : TestTree σ ν} {ts : List (TestTree σ ν)} (distinct : (idsAll ts).Nodup)
    (member : c ∈ ts) (member' : c' ∈ ts) {id : UniqueId} (here : id ∈ ids c) (there : id ∈ ids c') :
    c = c' := by
  induction ts with
  | nil => contradiction
  | cons u us ih =>
    rw [idsAll_cons, List.nodup_append'] at distinct
    obtain ⟨_, rest, apart⟩ := distinct
    rcases List.mem_cons.mp member with rfl | later <;> rcases List.mem_cons.mp member' with rfl | later'
    · rfl
    · exact absurd (ids_subset later' there) (apart here)
    · exact absurd (ids_subset later here) (apart there)
    · exact ih rest later later'

end TestTree

inductive Deed.Somewhere (P : List (Place σ ν) → Visit σ ν → List (Deed σ ν) → Prop) :
    List (Place σ ν) → Deed σ ν → Prop where
  | here : P path v inside → Deed.Somewhere P path (.visit v inside)
  | within : d ∈ inside → Deed.Somewhere P (v.place :: path) d → Deed.Somewhere P path (.visit v inside)

def Visit.IsTo (v : Visit σ ν) (t : TestTree σ ν) : Prop := v.tree = t ∧ v.announced = false

open Deed TestTree

variable {env : Environment σ ν} {settings : Settings} {path : List (Place σ ν)} {place : Place σ ν}
  {v : Visit σ ν} {inside ds : List (Deed σ ν)}

namespace Deed

/-- The visits made directly inside to nodes that are declared, not made at run time. -/
def declared (ds : List (Deed σ ν)) : List (Visit σ ν × List (Deed σ ν)) :=
  (visits ds).filter (!·.1.announced)

theorem mem_declared {p : Visit σ ν × List (Deed σ ν)} :
    p ∈ declared ds ↔ p ∈ visits ds ∧ p.1.announced = false := by
  simp [declared]

theorem declared_congr (es : List (Deed σ ν)) (same : visits ds = visits es) : declared ds = declared es := by
  rw [declared, same, declared]

theorem declared_eq_nil (made : ∀ p ∈ visits ds, p.1.announced) : declared ds = [] := by
  simpa [declared, List.filter_eq_nil_iff] using fun v inside => made (v, inside)

theorem declared_each {m : Manner} {left : Leaving → Prop} {trees : List (TestTree σ ν)}
    (h : List.Forall₂ (Visits m left) trees ds) : (declared ds).map (·.1.tree) = trees := by
  induction h with
  | nil => rfl
  | cons visit _ ih =>
    obtain ⟨v, inside, rfl, rfl, _, announced, _⟩ := visit
    rw [declared, visits_visit, List.filter_cons_of_pos (by simp [announced]), List.map_cons, ← declared, ih]
    rfl

end Deed

theorem Numbered.declared {parent : UniqueId} (h : Numbered parent low high ds) : Deed.declared ds = [] :=
  declared_eq_nil fun p member => (h.distinct.1 p member).1

theorem ChildrenExecuted.declared (h : ChildrenExecuted settings place ds)
    (sequential : settings.parallel = false) : (Deed.declared ds).map (·.1.tree) = place.below := by
  obtain ⟨sameThread, concurrent, rfl, visits, beside⟩ := h
  have all : place.below.filter (!place.runsBeside settings ·) = place.below := by
    simp [Place.runsBeside_eq_false sequential]
  have none : place.below.filter (place.runsBeside settings ·) = [] := by
    simp [Place.runsBeside_eq_false sequential]
  rw [all] at visits
  rw [none, List.forall₂_nil_left_iff] at beside
  rw [beside, List.append_nil]
  exact declared_each visits

/-- A node that runs a method or expands at run time once it is entered. It has nothing to do with the trees
declared below it. -/
def Expanding (path : List (Place σ ν)) (d : Descriptor σ ν) : Prop :=
  leafBody? path d ≠ none ∨ ∃ t, d.role = .template t

def Expands (path : List (Place σ ν)) (v : Visit σ ν) (inside : List (Deed σ ν)) : Prop :=
  (∃ rest, Entered inside rest) ∧ Expanding path v.descriptor

theorem Course.declared (h : Course settings path place ds) (sequential : settings.parallel = false) :
    (Expanding path place.descriptor → Deed.declared ds = []) ∧
    (¬ Expanding path place.descriptor → (Deed.declared ds).map (·.1.tree) = place.below) := by
  cases h with
  | @leaf body p leafy order =>
    have expanding : Expanding path place.descriptor := .inl (by simp [leafy])
    refine ⟨fun _ => ?_, fun not => absurd expanding not⟩
    rw [declared_congr _ order.visits]
    by_cases reached : raised (p.instantiation ++ p.beforeEach ++ p.beforeExecution) = []
    · obtain ⟨high, numbered⟩ := numbered_of_leafBody leafy (order.body.held reached)
      exact numbered.declared
    · rw [order.body.failed reached]
      rfl
  | @testClass c p role order =>
    have other : ¬ Expanding path place.descriptor := by simp [Expanding, leafBody?, role]
    refine ⟨fun expanding => absurd expanding other, fun _ => ?_⟩
    rw [declared_congr _ order.visits]
    cases outcome : raised (p.setUp ++ p.beforeAll ++ p.beforeHooks) with
    | nil => exact (order.children outcome).declared sequential
    | cons e more =>
      cases more with
      | nil => exact declared_each (order.childrenSkipped e outcome)
      | cons _ _ =>
        have several := order.oneFailure
        rw [outcome] at several
        simp at several
  | template role course =>
    obtain ⟨high, numbered⟩ := course
    exact ⟨fun _ => numbered.declared, fun not => absurd (.inr ⟨_, role⟩) not⟩
  | container none kind executed =>
    have other : ¬ Expanding path place.descriptor := by
      rcases kind with role | role <;> simp [Expanding, none, role]
    exact ⟨fun expanding => absurd expanding other, fun _ => executed.declared sequential⟩

/-- The node comes to its end. Of what is declared below it all is visited, in order, unless it is entered and
expands; then nothing is. -/
structure Covered (path : List (Place σ ν)) (v : Visit σ ν) (inside : List (Deed σ ν)) : Prop where
  ended : v.leaving = .ended
  reported : Reported inside
  none : Expands path v inside → declared inside = []
  all : ¬ Expands path v inside → (declared inside).map (·.1.tree) = v.place.below

theorem Skip.declared {reason : String} (h : Skip place reason ds) :
    (Deed.declared ds).map (·.1.tree) = place.below := by
  obtain ⟨told, skips, inside, fault, rfl, turns, passed⟩ := h
  rw [declared_congr skips (by simp [turns.visits])]
  exact declared_each passed

theorem Law.covered (law : Law env path v inside) (sequential : env.settings.parallel = false)
    (ended : v.leaving = .ended) (made : v.manner = .made → v.announced = true) : Covered path v inside := by
  have conduct := law.ended ended
  have reported := conduct.reported
  have all (not : ¬ ∃ rest, Entered inside rest) (same : (declared inside).map (·.1.tree) = v.place.below) :
      Covered path v inside :=
    ⟨ended, reported, fun expands => absurd expands.1 not, fun _ => same⟩
  cases conduct with
  | @refused e skips finish _ _ passed finished =>
    refine all (by simp [Entered, admission]) ?_
    rw [declared_congr skips (by simp [finished.visits])]
    exact declared_each passed
  | @disabled reason skip asked _ skipped =>
    refine all ?_ ?_
    · obtain ⟨told, skips, closing, fault, rfl, _⟩ := skipped
      simp [Entered, admission]
    · rw [declared_congr skip (by simp [admission])]
      exact skipped.declared
  | @unclear skips finish asked fault _ passed finished =>
    refine all (by simp [Entered, admission]) ?_
    rw [declared_congr skips (by simp [admission, finished.visits])]
    exact declared_each passed
  | @entered course finish asked _ did finished =>
    have same : declared (admission asked none ++ .report .started :: course ++ finish) = declared course :=
      declared_congr _ (by simp [admission, finished.visits])
    have entered : ∃ rest, Entered (admission asked none ++ .report .started :: course ++ finish) rest :=
      ⟨course ++ finish, asked, by simp⟩
    obtain ⟨none, all⟩ := did.declared sequential
    refine ⟨ended, reported, fun expands => same ▸ none expands.2, fun not => ?_⟩
    rw [same]
    exact all fun expanding => not ⟨entered, expanding⟩
  | passedOver _ skipped =>
    refine all ?_ skipped.declared
    obtain ⟨told, skips, closing, fault, rfl, _⟩ := skipped
    simp [Entered, admission]
  | @made high course finish manner numbered finished =>
    refine all (by simp [Entered, admission]) ?_
    rw [declared_congr course (by simp [finished.visits]), numbered.declared, (law.dynamic (made manner)).2]
    rfl

namespace Deed
variable {P Q : List (Place σ ν) → Visit σ ν → List (Deed σ ν) → Prop} {d : Deed σ ν}

theorem Somewhere.mono (h : Somewhere P path d) (implies : ∀ {path v inside}, P path v inside → Q path v inside) :
    Somewhere Q path d := by
  induction h with
  | here holds => exact .here (implies holds)
  | within member _ ih => exact .within member ih

theorem Somewhere.of_visit (h : Somewhere P path (.visit v inside)) :
    P path v inside ∨ ∃ w ds, (w, ds) ∈ visits inside ∧ .visit w ds ∈ inside ∧
      Somewhere P (v.place :: path) (.visit w ds) := by
  cases h with
  | here holds => exact .inl holds
  | @within _ d _ _ member below =>
    cases d with
    | act | report => cases below
    | visit w ds => exact .inr ⟨w, ds, visit_mem_visits member, member, below⟩

/-- What is marked in a visit is marked in all that it is part of. -/
theorem Somewhere.marked (h : Somewhere P path d) (everywhere : Everywhere Q path d) :
    ∃ path v inside, P path v inside ∧ Q path v inside ∧
      ∀ node, ∀ e ∈ entriesAll v.descriptor.node inside, e ∈ d.entries node := by
  induction h with
  | @here path v inside holds =>
    cases everywhere with
    | visit law _ => exact ⟨_, _, _, holds, law, fun _ e member => by simp [entries, member]⟩
  | @within inside d path v member _ ih =>
    cases everywhere with
    | visit _ below =>
      obtain ⟨path', w, ds, holds, law, among⟩ := ih (below _ member)
      refine ⟨path', w, ds, holds, law, fun node e marked => ?_⟩
      simp [entries, mem_entriesAll member (among v.descriptor.node e marked)]

/-- In a run on one thread every visit inside one that comes to its end is covered. -/
theorem Everywhere.covered (sequential : env.settings.parallel = false) (lawful : Everywhere (Law env) path d) :
    (∀ v inside, d = .visit v inside → v.leaving = .ended ∧ (v.manner = .made → v.announced = true)) →
    Everywhere (fun path v inside => Law env path v inside ∧ Covered path v inside) path d := by
  induction lawful with
  | act => exact fun _ => .act
  | report => exact fun _ => .report
  | @visit path v inside law _ ih =>
    intro left
    obtain ⟨ended, made⟩ := left v inside rfl
    refine .visit ⟨law, law.covered sequential ended made⟩ fun d member => ih d member ?_
    rintro w ds rfl
    have among : (w, ds) ∈ visits inside := visit_mem_visits member
    have conduct := law.ended ended
    refine ⟨?_, fun manner => ?_⟩
    · cases conduct.brood sequential with
      | declared _ ended => exact ended _ among
      | made each _ => exact (each _ among).2.1
    · by_contra unannounced
      obtain ⟨_, manners⟩ := conduct.children.siblings ⟨_, among, by simpa using unannounced⟩
      rcases manners _ among with executed | ⟨reason, passedOver⟩ <;> simp_all

section
variable {t p : TestTree σ ν}

abbrev CoveredEverywhere (env : Environment σ ν) (path : List (Place σ ν)) (d : Deed σ ν) : Prop :=
  Everywhere (fun path v inside => Law env path v inside ∧ Covered path v inside) path d

/-- Nothing is declared below a node that is made at run time. -/
theorem Everywhere.undeclared (covered : CoveredEverywhere env path d) : ∀ v inside, d = .visit v inside →
    v.announced = true → ¬ Somewhere (fun _ w _ => w.announced = false) path d := by
  induction covered with
  | act | report =>
    intro v inside same
    simp at same
  | @visit path v inside law _ ih =>
    rintro _ _ same announced found
    obtain ⟨rfl, rfl⟩ := Deed.visit.inj same
    have none : declared inside = [] := by
      by_cases expands : Expands path v inside
      · exact law.2.none expands
      · have all := law.2.all expands
        rw [(law.1.dynamic announced).2] at all
        exact List.map_eq_nil_iff.mp all
    rcases found.of_visit with unannounced | ⟨w, ds, among, member, found⟩
    · simp [announced] at unannounced
    · refine ih _ member w ds rfl ?_ found
      by_contra unannounced
      have made : (w, ds) ∈ declared inside := mem_declared.mpr ⟨among, by simpa using unannounced⟩
      simp [none] at made

/-- A declared node found below another is inside the visit to one of its children. -/
theorem Everywhere.deeper (covered : CoveredEverywhere env path (.visit v inside))
    (found : Somewhere (fun path w ds => w.announced = false ∧ P path w ds) path (.visit v inside)) :
    P path v inside ∨ ∃ w ds, (w, ds) ∈ declared inside ∧ .visit w ds ∈ inside ∧ w.tree ∈ v.place.below ∧
      CoveredEverywhere env (v.place :: path) (.visit w ds) ∧
      Somewhere (fun path w ds => w.announced = false ∧ P path w ds) (v.place :: path) (.visit w ds) := by
  rcases found.of_visit with ⟨_, holds⟩ | ⟨w, ds, among, member, found⟩
  · exact .inl holds
  · cases covered with
    | visit law below =>
      have covered := below _ member
      have unannounced : w.announced = false := by
        by_contra announced
        exact covered.undeclared w ds rfl (by simpa using announced) (found.mono And.left)
      have made := mem_declared.mpr ⟨among, unannounced⟩
      refine .inr ⟨w, ds, made, member, ?_, covered, found⟩
      by_cases expands : Expands path v inside
      · simp [law.2.none expands] at made
      · rw [← law.2.all expands]
        exact List.mem_map_of_mem made

end

end Deed

section
variable {t p : TestTree σ ν} {d : Deed σ ν}

/-- A node at which what is declared below is left out. -/
def Hides (p : TestTree σ ν) (path : List (Place σ ν)) (v : Visit σ ν) (inside : List (Deed σ ν)) : Prop :=
  v.IsTo p ∧ Expands path v inside

theorem Deed.Everywhere.among (covered : CoveredEverywhere env path d) : ∀ v inside, d = .visit v inside →
    Somewhere (fun _ w _ => w.IsTo t) path d → t.Among v.tree := by
  induction covered with
  | act | report =>
    intro v inside same
    simp at same
  | visit law below ih =>
    rintro v inside same found
    obtain ⟨rfl, rfl⟩ := Deed.visit.inj same
    have found := found.mono (Q := fun _ w _ => w.announced = false ∧ w.tree = t) fun is => is.symm
    rcases (Everywhere.visit law below).deeper found with same | ⟨w, ds, _, member, child, _, found⟩
    · exact .inl same.symm
    · have among := ih _ member w ds rfl (found.mono fun is => is.symm)
      exact .inr (among.under child)

/-- What is declared is visited, or left out below a node that expands. -/
theorem Deed.Everywhere.visited_or_hidden (covered : CoveredEverywhere env path d) : ∀ v inside,
    d = .visit v inside → v.announced = false → t.Among v.tree →
    Somewhere (fun _ w _ => w.IsTo t) path d ∨ ∃ p, t.Under p ∧ Somewhere (Hides p) path d := by
  induction covered with
  | act | report =>
    intro v inside same
    simp at same
  | @visit path v inside law _ ih =>
    rintro _ _ same announced among
    obtain ⟨rfl, rfl⟩ := Deed.visit.inj same
    by_cases expands : Expands path v inside
    · rcases among with rfl | under
      · exact .inl (.here ⟨rfl, announced⟩)
      · exact .inr ⟨v.tree, under, .here ⟨⟨rfl, announced⟩, expands⟩⟩
    · have all := law.2.all expands
      have child {c : TestTree σ ν} (member : c ∈ v.place.below) (among : t.Among c) :
          Somewhere (fun _ w _ => w.IsTo t) path (.visit v inside) ∨
            ∃ p, t.Under p ∧ Somewhere (Hides p) path (.visit v inside) := by
        rw [← all] at member
        obtain ⟨⟨w, ds⟩, made, rfl⟩ := List.mem_map.mp member
        obtain ⟨visited, unannounced⟩ := mem_declared.mp made
        have member := mem_visits visited
        rcases ih _ member w ds rfl unannounced among with found | ⟨p, under, found⟩
        · exact .inl (.within member found)
        · exact .inr ⟨p, under, .within member found⟩
      rcases among with rfl | under
      · exact .inl (.here ⟨rfl, announced⟩)
      · cases under with
        | child member => exact child member (.inl rfl)
        | deeper member under => exact child member (.inr under)

/-- What is left out below a node that expands is not visited elsewhere. -/
theorem Deed.Everywhere.hidden (covered : CoveredEverywhere env path d) (under : t.Under p) : ∀ v inside,
    d = .visit v inside → (ids v.tree).Nodup → Somewhere (Hides p) path d →
    ¬ Somewhere (fun _ w _ => w.IsTo t) path d := by
  induction covered with
  | act | report =>
    intro v inside same
    simp at same
  | @visit path v inside law below ih =>
    rintro _ _ same distinct hidden found
    obtain ⟨rfl, rfl⟩ := Deed.visit.inj same
    have covered : CoveredEverywhere env path (.visit v inside) := .visit law below
    have hidden := hidden.mono (Q := fun path w ds => w.announced = false ∧ w.tree = p ∧ Expands path w ds)
      fun hides => ⟨hides.1.2, hides.1.1, hides.2⟩
    have found := found.mono (Q := fun _ w _ => w.announced = false ∧ w.tree = t) fun is => is.symm
    rcases covered.deeper found with rfl | ⟨w, ds, made, _, child, inner, found⟩
    · -- The node is the root: it is not below a node in its own tree.
      have above : p.Among v.tree := covered.among v inside rfl (hidden.mono fun h => ⟨h.2.1, h.1⟩)
      exact (under.among above).ne distinct rfl
    · have here : t.Among w.tree := inner.among w ds rfl (found.mono fun is => is.symm)
      rcases covered.deeper hidden with ⟨rfl, expands⟩ | ⟨x, es, made', member, child', inner', hidden⟩
      · simp [law.2.none expands] at made
      · have there : t.Among x.tree :=
          .inr (under.among (inner'.among x es rfl (hidden.mono fun h => ⟨h.2.1, h.1⟩)))
        have same := side_unique (idsAll_nodup distinct) child child' here.id_mem there.id_mem
        have all := law.2.all fun expands => by simp [law.2.none expands] at made
        have roots : ((declared inside).map (·.1.id)).Nodup := by
          have roots := roots_nodup (idsAll_nodup distinct)
          rwa [show v.tree.children = _ from all.symm, List.map_map] at roots
        obtain ⟨rfl, rfl⟩ := Prod.mk.inj
          (List.inj_on_of_nodup_map roots made made' (congrArg (·.descriptor.id) same))
        exact ih _ member w ds rfl (child_nodup (idsAll_nodup distinct) child)
          (hidden.mono fun h => ⟨⟨h.2.1, h.1⟩, h.2.2⟩) (found.mono fun is => is.symm)

/-- The trace tells that the node is started and finished, or that it is skipped. -/
def ReportedIn (trace : List (Entry ν)) (node : Node) : Prop :=
  (.event (.of node .started) ∈ trace ∧ ∃ r, .event (.of node (.finished r)) ∈ trace) ∨
    ∃ reason, .event (.of node (.skipped reason)) ∈ trace

theorem Reported.marked (h : Reported inside) (node : Node) : ReportedIn (entriesAll node inside) node := by
  have marked {r : Report} (member : .report r ∈ inside) : .event (.of node r.kind) ∈ entriesAll node inside :=
    mem_entriesAll member (by simp [Deed.entries])
  rcases h with ⟨started, r, finished⟩ | ⟨reason, skipped⟩
  · exact .inl ⟨marked started, r, marked finished⟩
  · exact .inr ⟨reason, marked skipped⟩

theorem ReportedIn.mono {part trace : List (Entry ν)} {node : Node} (h : ReportedIn part node)
    (among : ∀ e ∈ part, e ∈ trace) : ReportedIn trace node := by
  rcases h with ⟨started, r, finished⟩ | ⟨reason, skipped⟩
  · exact .inl ⟨among _ started, r, among _ finished⟩
  · exact .inr ⟨reason, among _ skipped⟩

/-- Of a declared node that is visited listeners are told. -/
theorem Deed.Somewhere.reported (h : Somewhere (fun _ w _ => w.IsTo t) path d)
    (covered : CoveredEverywhere env path d) (node : Node) : ReportedIn (d.entries node) t.descriptor.node := by
  obtain ⟨_, w, ds, ⟨rfl, _⟩, law, among⟩ := h.marked covered
  exact (law.2.reported.marked w.descriptor.node).mono (among node)

end

/-- The run has a history that keeps the law. A declared node is visited, and reported, if and only if no node
above it is entered and expands. -/
def Run.Covers (run : Run σ ν) (c : Configuration) (extensions : List (Declared σ ν)) (tree : TestTree σ ν) : Prop :=
  ∃ registry v inside, rootRegistry extensions = .ok registry ∧ run.ToldBy tree v inside ∧
    CoveredEverywhere (environment c registry) [] (.visit v inside) ∧
    ∀ t, t.Among tree →
      (Somewhere (fun _ w _ => w.IsTo t) [] (.visit v inside) ↔
        ¬ ∃ p, t.Under p ∧ Somewhere (Hides p) [] (.visit v inside)) ∧
      (Somewhere (fun _ w _ => w.IsTo t) [] (.visit v inside) → ReportedIn run.trace t.descriptor.node)

section
variable {c : Configuration} {extensions : List (Declared σ ν)} {tree : TestTree σ ν} {user : σ}
  {run : Run σ ν}

/-- In a run on one thread that comes to its end every visit keeps the whole law and is covered. -/
theorem Run.always_covered (executed : execute c extensions tree user = .ok run)
    (sequential : (Settings.ofConfiguration c).parallel = false) (ended : run.halt = none) :
    ∃ registry v inside, rootRegistry extensions = .ok registry ∧ run.ToldBy tree v inside ∧
      Everywhere (fun path v inside => FullLaw True (environment c registry) path v inside ∧ Covered path v inside) []
        (.visit v inside) := by
  obtain ⟨registry, v, inside, registered, told, lawful⟩ := fully_lawful_history executed
  have covered : CoveredEverywhere (environment c registry) [] (.visit v inside) :=
    (lawful.mono fun law => law.toLaw).covered sequential fun w ds same => by
      obtain ⟨rfl, rfl⟩ := Deed.visit.inj same
      exact ⟨by rw [told.leaving, Run.leaving, ended], by simp [told.manner]⟩
  exact ⟨registry, v, inside, registered, told, (lawful.and covered).mono fun both => ⟨both.1, both.2.2⟩⟩

/-- In a run on one thread that comes to its end every declared node is reported but those below a test, a
template or a factory that is entered. Of these none is visited. -/
theorem declared_covered (executed : execute c extensions tree user = .ok run)
    (sequential : (Settings.ofConfiguration c).parallel = false) (ended : run.halt = none) :
    run.Covers c extensions tree := by
  obtain ⟨registry, v, inside, registered, told, both⟩ := Run.always_covered executed sequential ended
  have root : v.tree = tree := told.root
  have covered : CoveredEverywhere (environment c registry) [] (.visit v inside) :=
    both.mono fun ⟨law, covers⟩ => ⟨law.toLaw, covers⟩
  have distinct : (ids v.tree).Nodup := root ▸ TestTree.validate_nodup (execute_valid executed)
  refine ⟨registry, v, inside, registered, told, covered, fun t among => ⟨⟨?_, fun free => ?_⟩, fun found => ?_⟩⟩
  · rintro found ⟨p, under, hidden⟩
    exact covered.hidden under v inside rfl distinct hidden found
  · have among : t.Among v.tree := root ▸ among
    exact (covered.visited_or_hidden v inside rfl told.announced among).resolve_right free
  · rw [told.trace]
    exact found.reported covered default

def Blueprint.overgrown : Blueprint Unit String :=
  .node (.engine "overgrown") [
    .node (.ofTest { signature := { name := "outer" }, body := fun _ => .done (.ok ()) }) [
      .node (.ofTest { signature := { name := "inner" }, body := fun _ => .done (.ok ()) }) []]]

theorem declared_covered_sample : ∃ run, execute .empty [] Blueprint.overgrown.build () = .ok run ∧
    (Settings.ofConfiguration .empty).parallel = false ∧ run.halt = none ∧
    run.events.map (·.displayName) = ["overgrown", "outer", "outer", "overgrown"] ∧
    run.Covers .empty [] Blueprint.overgrown.build := by
  obtain ⟨run, executed, checked⟩ := Blueprint.executed_of_any
    (r := execute .empty [] Blueprint.overgrown.build ()) (p := fun run => run.halt.isNone &&
      run.events.map (·.displayName) == ["overgrown", "outer", "outer", "overgrown"]) (by decide +kernel)
  rw [Bool.and_eq_true, Option.isNone_iff_eq_none, beq_iff_eq] at checked
  have sequential : (Settings.ofConfiguration .empty).parallel = false := by decide +kernel
  exact ⟨run, executed, sequential, checked.1, checked.2, declared_covered executed sequential checked.1⟩

end

end TestEngine

import TestEngine.Proofs.History
import TestEngine.Proofs.Conduct

/-! What is registered for a node and for the nodes above it, and the order in which that applies where no
registration asks for an extreme position. -/
namespace TestEngine
variable {σ ν : Type} {env : Environment σ ν} {path : List (Place σ ν)}

open Deed Execution

/-- Hooks in the order of declaration, or sorted by name with those of one name as they are declared. -/
def InHookOrder (order : HookOrder) (declared ordered : List (Method σ ν Unit)) : Prop :=
  match order with
  | .declaration => ordered = declared
  | .alphanumeric => ordered.Perm declared ∧ ordered.Pairwise (·.name ≤ ·.name) ∧
      ∀ name, ordered.filter (·.name = name) = declared.filter (·.name = name)

theorem orderHooks_inOrder (order : HookOrder) (hooks : List (Method σ ν Unit)) :
    InHookOrder order hooks (orderHooks order hooks) := by
  cases order with
  | declaration => rfl
  | alphanumeric =>
    have trans : ∀ a b c : Method σ ν Unit, decide (a.name ≤ b.name) → decide (b.name ≤ c.name) →
        decide (a.name ≤ c.name) := fun a b c first second => by
      simp only [decide_eq_true_eq] at first second ⊢
      exact String.le_trans first second
    have total : ∀ a b : Method σ ν Unit, decide (a.name ≤ b.name) || decide (b.name ≤ a.name) := fun a b => by
      simpa using String.le_total a.name b.name
    have perm : (orderHooks .alphanumeric hooks).Perm hooks := List.mergeSort_perm _ _
    refine ⟨perm, ?_, fun name => ?_⟩
    · unfold orderHooks
      simpa using List.pairwise_mergeSort trans total hooks
    · -- The hooks of one name are sorted already, so sorting keeps them as they are.
      have alike : (hooks.filter (·.name = name)).Pairwise fun a b => decide (a.name ≤ b.name) :=
        List.pairwise_of_forall_mem_list fun a first b second => by
          rw [(by simpa using (List.mem_filter.mp first).2 : a.name = name),
            (by simpa using (List.mem_filter.mp second).2 : b.name = name)]
          simp
      have kept : (hooks.filter (·.name = name)).Sublist (orderHooks .alphanumeric hooks) :=
        List.sublist_mergeSort trans total alike List.filter_sublist
      have filtered := kept.filter (·.name = name)
      rw [List.filter_filter] at filtered
      simp only [Bool.and_self] at filtered
      exact (filtered.eq_of_length (perm.filter _).length_eq.symm).symm

namespace Registry

def all (r : Registry (Extension σ ν)) : List (Extension σ ν) :=
  (r.layers.flatMap (·.registrations)).map (·.extension)

theorem mem_all_child {r : Registry (Extension σ ν)} {e : Extension σ ν} {scope : Scope} :
    e ∈ (r.child scope).all ↔ e ∈ r.all := by
  simp [all, child, layers]

theorem mem_all_registerAll {r r' : Registry (Extension σ ν)} {ds : List (Declared σ ν)} {e : Extension σ ν}
    (registered : registerAll r ds = .ok r') (h : e ∈ r'.all) : e ∈ r.all ∨ ∃ d ∈ ds, d.extension = e := by
  induction ds generalizing r with
  | nil =>
    cases registered
    exact .inl h
  | cons d ds ih =>
    unfold registerAll register at registered
    split at registered
    · contradiction
    · rename_i upper added
      split at added
      · contradiction
      · cases added
        rcases ih registered with before | ⟨x, member, same⟩
        · simp only [all, layers, List.flatMap_cons, List.map_append, List.mem_append, List.map_cons, List.map_nil,
            List.mem_singleton] at before ⊢
          rcases before with (own | rfl) | above
          · exact .inl (.inl own)
          · exact .inr ⟨d, by simp, rfl⟩
          · exact .inl (.inr above)
        · exact .inr ⟨x, by simp [member], same⟩

theorem forall_registerAll {P : Extension σ ν → Prop} {r r' : Registry (Extension σ ν)} {ds : List (Declared σ ν)}
    (registered : registerAll r ds = .ok r') (before : ∀ e ∈ r.all, P e) (own : ∀ d ∈ ds, P d.extension) :
    ∀ e ∈ r'.all, P e := by
  intro e member
  rcases mem_all_registerAll registered member with above | ⟨d, among, rfl⟩
  · exact before e above
  · exact own d among

end Registry

namespace Registry

/-- All that is registered, from the outermost layer to the node's own, and nothing at an extreme position. -/
structure Holds (r : Registry (Extension σ ν)) (es : List (Extension σ ν)) : Prop where
  listed : (r.layers.reverse.flatMap (·.registrations)).map (·.extension) = es
  plain : ∀ x ∈ r.layers.reverse.flatMap (·.registrations), x.position = .default

theorem Holds.extensions {r : Registry (Extension σ ν)} {es : List (Extension σ ν)} (h : r.Holds es)
    (capability : Capability) : r.extensions capability =
      if capability.isAfter then (es.filter (·.has capability)).reverse else es.filter (·.has capability) := by
  have found : (r.inward capability).map (·.extension) = es.filter (·.has capability) := by
    have plain : ∀ x ∈ r.supporting capability, x.position = .default := fun x member =>
      h.plain x (List.mem_of_mem_filter member)
    have none (p : Position) (other : p ≠ .default) :
        (r.supporting capability).filter (·.position == p) = [] := by
      rw [List.filter_eq_nil_iff]
      intro x member same
      exact other ((eq_of_beq same).symm.trans (plain x member))
    have all : (r.supporting capability).filter (·.position == .default) = r.supporting capability := by
      simpa using plain
    rw [inward, none .outermost nofun, none .innermost nofun, all, List.nil_append, List.append_nil,
      ← h.listed, supporting, List.filter_map]
    rfl
  rw [Registry.extensions, found]

theorem Holds.child {r : Registry (Extension σ ν)} {es : List (Extension σ ν)} (h : r.Holds es)
    (scope : Scope) : (r.child scope).Holds es := by
  constructor
  · simpa [Registry.child, layers] using h.listed
  · simpa [Registry.child, layers] using h.plain

theorem Holds.registerAll {r : Registry (Extension σ ν)} {es : List (Extension σ ν)} (h : r.Holds es)
    (ds : List (Declared σ ν)) (plain : ∀ d ∈ ds, d.position = .default) :
    ∃ r', Execution.registerAll r ds = .ok r' ∧ r'.Holds (es ++ ds.map (·.extension)) := by
  induction ds generalizing r es with
  | nil => exact ⟨r, rfl, by simpa using h⟩
  | cons d ds ih =>
    have default : d.position = .default := plain d (by simp)
    have one : ({ r with own.registrations := r.own.registrations ++ [⟨d.extension, .default, r.own.scope⟩] } :
        Registry (Extension σ ν)).Holds (es ++ [d.extension]) := by
      constructor
      · rw [← h.listed]
        simp [layers]
      · simpa [layers, or_imp, forall_and] using h.plain
    obtain ⟨r', registered, holds⟩ := ih one fun d member => plain d (by simp [member])
    refine ⟨r', ?_, by simpa using holds⟩
    simpa [Execution.registerAll, register, conflict?, default] using registered

theorem holds_root : (root : Registry (Extension σ ν)).Holds [] := ⟨rfl, by simp [root, layers]⟩

/-- A single extension of a node, at no extreme position, takes its place among those registered above. -/
theorem registered_alone (r : Registry (Extension σ ν)) (scope : Scope) {e : Extension σ ν} {capability : Capability}
    (has : e.has capability) (outwards : capability.isAfter = false) :
    ∃ r' before after, Execution.registerAll (r.child scope) [⟨e, .default⟩] = .ok r' ∧
      r.extensions capability = before ++ after ∧ r'.extensions capability = before ++ e :: after := by
  let own : Registration (Extension σ ν) := ⟨e, .default, scope⟩
  let r' : Registry (Extension σ ν) := { r.child scope with own := { scope, registrations := [own] } }
  have among : r'.supporting capability = r.supporting capability ++ [own] := by
    have registered : Registrable.has own.extension capability = true := has
    simp [r', supporting, layers, child, registered]
  let found := r.supporting capability
  refine ⟨r', (found.filter (·.position == .outermost) ++ found.filter (·.position == .default)).map (·.extension),
    (found.filter (·.position == .innermost)).map (·.extension), rfl, ?_, ?_⟩
  · simp [Registry.extensions, outwards, inward, found]
  · have others : (Position.default == Position.outermost) = false ∧ (Position.default == Position.innermost) = false :=
      ⟨rfl, rfl⟩
    simp [Registry.extensions, outwards, inward, among, found, own, others]

end Registry

/-- What is registered for a node itself: its extensions, and behind them the hooks of its class. -/
def Descriptor.own (settings : Settings) (d : Descriptor σ ν) : List (Declared σ ν) :=
  d.extensions ++ match d.testClass? with
    | some c => hookExtensions c (hookOrder settings c)
    | none => []

theorem Descriptor.own_plain {settings : Settings} {d : Descriptor σ ν}
    (plain : ∀ x ∈ d.extensions, x.position = .default) : ∀ x ∈ d.own settings, x.position = .default := by
  intro x member
  rcases List.mem_append.mp member with declared | hook
  · exact plain x declared
  · split at hook
    · rcases List.mem_append.mp hook with before | after
      · obtain ⟨_, _, rfl⟩ := List.mem_map.mp before
        rfl
      · obtain ⟨_, _, rfl⟩ := List.mem_map.mp after
        rfl
    · contradiction

/-- Each node of a path has the registry that follows from those above it. -/
def Registered (env : Environment σ ν) : List (Place σ ν) → Prop
  | [] => True
  | p :: above => p.registry = registryBelow env above p.descriptor ∧ Registered env above

theorem Deed.Everywhere.registered {d : Deed σ ν} (lawful : Everywhere (Law env) path d)
    (above : Registered env path) :
    Everywhere (fun path v inside => Law env path v inside ∧ Registered env (v.place :: path)) path d := by
  induction lawful with
  | act => exact .act
  | report => exact .report
  | visit law _ ih => exact .visit ⟨law, law.registry, above⟩ fun d member => ih d member ⟨law.registry, above⟩

/-- What is registered on a path is registered for the run or for a node of the path itself. -/
theorem Registered.origin {e : Extension σ ν} (registered : Registered env path)
    (h : e ∈ (registryAbove env path).all) :
    e ∈ env.registry.all ∨ ∃ p ∈ path, ∃ x ∈ p.descriptor.own env.settings, x.extension = e := by
  induction path with
  | nil => exact .inl h
  | cons p above ih =>
    have upper (h : e ∈ (registryAbove env above).all) := (ih registered.2 h).imp_right fun ⟨q, member, x⟩ =>
      (⟨q, List.mem_cons_of_mem p member, x⟩ :
        ∃ q ∈ p :: above, ∃ x ∈ q.descriptor.own env.settings, x.extension = e)
    have here : e ∈ p.registry.all := h
    rw [registered.1, registryBelow] at here
    split at here
    · rename_i r made
      rcases Registry.mem_all_registerAll made here with above | own
      · exact upper (Registry.mem_all_child.mp above)
      · exact .inr ⟨p, by simp, own⟩
    · exact upper here

def PlainPath (path : List (Place σ ν)) : Prop :=
  ∀ p ∈ path, ∀ x ∈ p.descriptor.extensions, x.position = .default

theorem Registered.holds {es : List (Extension σ ν)} (root : env.registry.Holds es)
    (registered : Registered env path) (plain : PlainPath path) :
    (registryAbove env path).Holds (es ++ path.reverse.flatMap fun p =>
      (p.descriptor.own env.settings).map (·.extension)) := by
  induction path with
  | nil => simpa [registryAbove] using root
  | cons p above ih =>
    have upper := ih registered.2 fun q member => plain q (by simp [member])
    obtain ⟨r, made, holds⟩ := (upper.child p.descriptor.role.scope).registerAll
      (p.descriptor.own env.settings) (Descriptor.own_plain (plain p (by simp)))
    have same : p.registry = r := by
      have made : registryFor env.settings p.descriptor (registryAbove env above) = .ok r := made
      rw [registered.1, registryBelow, made]
    rw [show registryAbove env (p :: above) = r from same]
    simpa using holds

end TestEngine

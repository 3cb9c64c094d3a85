import TestEngine.Dictionary

/-! What a dictionary holds is told by its lookups: the value put last under a key. -/
namespace TestEngine

namespace Dictionary
variable {α : Type}

theorem lookup_cons_eq_if (k key : String) (value : α) (rest : List (String × α)) :
    ((key, value) :: rest).lookup k = if k = key then some value else rest.lookup k := by
  rw [List.lookup_cons]
  split <;> simp_all

theorem lookup_insertEntry (key k : String) (value : α) (entries : List (String × α)) :
    (insertEntry key value entries).lookup k = if k = key then some value else entries.lookup k := by
  induction entries with
  | nil => exact lookup_cons_eq_if ..
  | cons head rest ih =>
    obtain ⟨first, v⟩ := head
    unfold insertEntry
    split
    · exact lookup_cons_eq_if ..
    · rename_i notLess
      split
      · rename_i greater
        have apart : first ≠ key := fun same => String.lt_irrefl _ (same ▸ greater)
        rw [lookup_cons_eq_if, ih, lookup_cons_eq_if]
        grind
      · rename_i notGreater
        obtain rfl := eq_of_not_lt notLess notGreater
        rw [lookup_cons_eq_if, lookup_cons_eq_if]
        grind

theorem get?_insert (d : Dictionary α) (key k : String) (value : α) :
    (d.insert key value).get? k = if k = key then some value else d.get? k :=
  lookup_insertEntry key k value d.entries

theorem get?_foldl_insert (pairs : List (String × α)) (d : Dictionary α) (k : String) :
    (pairs.foldl (fun d pair => d.insert pair.1 pair.2) d).get? k = (pairs.reverse.lookup k).or (d.get? k) := by
  induction pairs generalizing d with
  | nil => rfl
  | cons pair pairs ih =>
    rw [List.foldl_cons, ih, get?_insert, List.reverse_cons, List.lookup_append, Option.or_assoc]
    grind

theorem get?_ofList (pairs : List (String × α)) (k : String) : (ofList pairs).get? k = pairs.reverse.lookup k :=
  (get?_foldl_insert pairs empty k).trans Option.or_none

/-- The value that was put last counts. -/
theorem get?_ofList_eq_some_iff {pairs : List (String × α)} {k : String} {v : α} :
    (ofList pairs).get? k = some v ↔
      ∃ before after, pairs = before ++ (k, v) :: after ∧ ∀ pair ∈ after, pair.1 ≠ k := by
  rw [get?_ofList, List.lookup_eq_some_iff]
  constructor
  · rintro ⟨after, before, whole, others⟩
    refine ⟨before.reverse, after.reverse, by simpa using congrArg List.reverse whole, fun pair member same => ?_⟩
    simpa [same] using others pair (List.mem_reverse.mp member)
  · rintro ⟨before, after, rfl, others⟩
    refine ⟨after.reverse, before.reverse, by simp, fun pair member => ?_⟩
    simpa using Ne.symm (others pair (List.mem_reverse.mp member))

theorem mem_entries_iff {d : Dictionary α} {k : String} {v : α} : (k, v) ∈ d.entries ↔ d.get? k = some v := by
  rw [get?, List.lookup_eq_some_iff]
  constructor
  · intro member
    obtain ⟨before, after, whole⟩ := List.append_of_mem member
    refine ⟨before, after, whole, fun pair among => ?_⟩
    have less : pair.1 < k := (List.pairwise_append.mp (whole ▸ d.sorted)).2.2 pair among _ List.mem_cons_self
    exact bne_iff_ne.mpr fun same => String.lt_irrefl k (same ▸ less)
  · rintro ⟨before, after, whole, -⟩
    simp [whole]

theorem mem_of_mem_entries {pairs : List (String × α)} {entry : String × α} (member : entry ∈ (ofList pairs).entries) :
    entry ∈ pairs := by
  obtain ⟨before, after, rfl, -⟩ := get?_ofList_eq_some_iff.mp (mem_entries_iff.mp member)
  exact List.mem_append_right _ List.mem_cons_self

theorem mem_keys_iff {d : Dictionary α} {k : String} : k ∈ d.keys ↔ ∃ v, d.get? k = some v := by
  simp [keys, ← mem_entries_iff]

theorem mem_keys_ofList (pairs : List (String × α)) (k : String) : k ∈ (ofList pairs).keys ↔ k ∈ pairs.map (·.1) := by
  simp only [mem_keys_iff, get?_ofList, ← Option.isSome_iff_exists, List.lookup_isSome_iff, List.mem_reverse,
    beq_iff_eq, List.mem_map, @eq_comm String k]

end Dictionary

theorem sortDistinct_sorted (names : List String) : (sortDistinct names).Pairwise (· < ·) :=
  List.pairwise_map.mpr (Dictionary.ofList (names.map (·, ()))).sorted

theorem mem_sortDistinct (names : List String) (name : String) : name ∈ sortDistinct names ↔ name ∈ names := by
  unfold sortDistinct
  rw [Dictionary.mem_keys_ofList, List.map_map]
  simp [Function.comp_def]

end TestEngine

import TestEngine.Configuration.Basic
import TestEngine.Proofs.ByteOrder
import TestEngine.Proofs.Dictionaries

/-! Configurations that are seen through others. However tables, prefixed views and layers are nested, the keys that a
configuration tells are those that it has values for, in the order of their bytes and each once. -/
namespace TestEngine

namespace Text

theorem append_lt_append_iff {start s t : String} : start ++ s < start ++ t ↔ s < t := by
  have behind (cs : List Char) : cs ++ s.toList < cs ++ t.toList ↔ s.toList < t.toList := by
    induction cs with
    | nil => rfl
    | cons c cs ih =>
      rw [List.cons_append, List.cons_append, List.cons_lt_cons_iff, ih]
      exact ⟨fun less => (less.resolve_left (Char.lt_irrefl c)).2, fun less => .inr ⟨rfl, less⟩⟩
  rw [String.lt_iff, String.toList_append, String.toList_append, behind, String.lt_iff]

end Text

namespace Configuration

theorem dropStart?_eq_some_iff {start key rest : List Char} :
    dropStart? start key = some rest ↔ key = start ++ rest := by
  induction start generalizing key with
  | nil => simp [dropStart?]
  | cons c start ih =>
    cases key with
    | nil => simp [dropStart?]
    | cons k key =>
      rw [dropStart?, List.cons_append, List.cons.injEq]
      split
      · rename_i same
        rw [ih, and_iff_right same.symm]
      · rename_i other
        simp [Ne.symm other]

/-- What a prefixed view shows of a key, if it shows the key at all. -/
theorem shown_eq_some_iff {start key rest : String} :
    ((dropStart? start.toList key.toList).map String.ofList) = some rest ↔ key = start ++ rest := by
  rw [Option.map_eq_some_iff]
  constructor
  · rintro ⟨cs, dropped, rfl⟩
    rw [← String.toList_inj, dropStart?_eq_some_iff.mp dropped, String.toList_append, String.toList_ofList]
  · rintro rfl
    exact ⟨rest.toList, dropStart?_eq_some_iff.mpr String.toList_append, String.ofList_toList⟩

theorem getFirst?_eq_findSome? (layers : List Configuration) (key : String) :
    getFirst? layers key = layers.findSome? (·.get? key) := by
  induction layers with
  | nil => rfl
  | cons layer layers ih =>
    rw [getFirst?, List.findSome?_cons, ih]
    cases layer.get? key <;> rfl

/-- Cutting off what all keys begin with keeps their order, and layers are sorted anew. -/
theorem keys_sorted : (c : Configuration) → c.keys.Pairwise (· < ·)
  | .entries table => List.pairwise_map.mpr table.sorted
  | .prefixed start within => by
    rw [keys, List.pairwise_filterMap]
    refine (keys_sorted within).imp fun less rest shown rest' shown' => ?_
    rw [shown_eq_some_iff.mp shown, shown_eq_some_iff.mp shown'] at less
    exact Text.append_lt_append_iff.mp less
  | .layered layers => by
    rw [keys]
    exact sortDistinct_sorted _

mutual
theorem mem_keys_iff : (c : Configuration) → (key : String) → (key ∈ c.keys ↔ ∃ value, c.get? key = some value)
  | .entries table, key => Dictionary.mem_keys_iff
  | .prefixed start within, key => by
    rw [keys, get?, ← mem_keys_iff within, List.mem_filterMap]
    simp only [shown_eq_some_iff, exists_eq_right]
  | .layered layers, key => by
    rw [keys, get?, mem_sortDistinct, mem_keysOfAll_iff layers]
theorem mem_keysOfAll_iff : (layers : List Configuration) → (key : String) →
    (key ∈ keysOfAll layers ↔ ∃ value, getFirst? layers key = some value)
  | [], key => by simp [keysOfAll, getFirst?]
  | layer :: layers, key => by
    rw [keysOfAll, List.mem_append, mem_keys_iff layer, mem_keysOfAll_iff layers, getFirst?]
    cases layer.get? key <;> simp
end

/-- The keys of a configuration are in the order of their bytes, each once, and they are those that it has values for.
In a table the value that was put last counts, a prefixed view looks a key up behind its prefix, and of layers the
first counts that has the key. -/
theorem keys_looked_up :
    (∀ c : Configuration, c.keys.Pairwise (fun key key' => Text.bytes key < Text.bytes key') ∧
      ∀ key, key ∈ c.keys ↔ ∃ value, c.get? key = some value) ∧
    (∀ pairs key value, (ofList pairs).get? key = some value ↔
      ∃ before after, pairs = before ++ (key, value) :: after ∧ ∀ pair ∈ after, pair.1 ≠ key) ∧
    (∀ start within key, (prefixed start within).get? key = within.get? (start ++ key)) ∧
    ∀ layers key value, (layered layers).get? key = some value ↔
      ∃ before layer after, layers = before ++ layer :: after ∧ layer.get? key = some value ∧
        ∀ earlier ∈ before, earlier.get? key = none := by
  refine ⟨fun c => ⟨?_, mem_keys_iff c⟩, ?_, ?_, ?_⟩
  · exact (keys_sorted c).imp Text.bytes_lt_iff.mpr
  · exact fun pairs key value => Dictionary.get?_ofList_eq_some_iff
  · exact fun start within key => by rw [get?]
  · intro layers key value
    rw [get?, getFirst?_eq_findSome?, List.findSome?_eq_some_iff]

/-- A prefixed view behind which one key is left empty, over a table that has both of its keys. -/
def nested : Configuration :=
  .layered [.prefixed "a." (ofList [("b", "1"), ("a.b", "2"), ("a.", "3")]), ofList [("b", "4"), ("", "5"), ("é", "6")]]

theorem keys_looked_up_nested : nested.keys = ["", "b", "é"] ∧ nested.get? "b" = some "2" ∧
    (nested.keys.Pairwise fun key key' => Text.bytes key < Text.bytes key') ∧
    ∀ key, key ∈ nested.keys ↔ ∃ value, nested.get? key = some value :=
  ⟨by decide +kernel, by decide +kernel, keys_looked_up.1 nested⟩

end Configuration
end TestEngine

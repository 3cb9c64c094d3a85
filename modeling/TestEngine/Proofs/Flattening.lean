import TestEngine.Configuration.File
import TestEngine.Proofs.Dictionaries

/-! What a configuration file tells. Its values that are no tables are reached by keys, and the configuration has the
text of each under these keys, joined by points. Where two of them are reached by keys that join to the same text, the
later one counts, in the order of the keys at every level. -/
namespace TestEngine

namespace Toml

/-- The keys of a table ascend, and so they do in the tables below it. -/
inductive Ordered : Toml → Prop
  | scalar (s : Scalar) : Ordered (.scalar s)
  | array (items : List Toml) : Ordered (.array items)
  | table {entries : List (String × Toml)} : entries.Pairwise (·.1 < ·.1) → (∀ entry ∈ entries, Ordered entry.2) →
      Ordered (.table entries)

/-- A value that is no table, and the keys that lead to it. -/
inductive Leaf : List (String × Toml) → List String → Toml → Prop
  | here {entries : List (String × Toml)} {key : String} {value : Toml} :
      (key, value) ∈ entries → value.isTable = false → Leaf entries [key] value
  | under {entries nested : List (String × Toml)} {key : String} {path : List String} {value : Toml} :
      (key, .table nested) ∈ entries → Leaf nested path value → Leaf entries (key :: path) value

/-- What a table is made of, in both places where one is. -/
theorem ordered_of_made {pairs : List (String × Toml)} {value : Toml} (each : ∀ pair ∈ pairs, pair.2.Ordered)
    (made : (if (pairs.map (·.1)).Nodup then some (table (Dictionary.ofList pairs).entries) else none) = some value) :
    value.Ordered := by
  obtain ⟨-, same⟩ := Option.ite_none_right_eq_some.mp made
  obtain rfl := Option.some.inj same
  exact .table (Dictionary.ofList pairs).sorted fun entry member => each entry (Dictionary.mem_of_mem_entries member)

mutual
theorem Written.ordered {value : Toml} : (w : Written) → w.value? = some value → value.Ordered
  | .scalar s, read => by
    obtain rfl := Option.some.inj read
    exact .scalar s
  | .array items, read => by
    obtain ⟨values, -, rfl⟩ := Option.map_eq_some_iff.mp read
    exact .array values
  | .table _ pairs, read => by
    obtain ⟨entries, readPairs, made⟩ := Option.bind_eq_some_iff.mp read
    exact ordered_of_made (pairs_ordered pairs readPairs) made
theorem pairs_ordered {entries : List (String × Toml)} : (pairs : List (String × Written)) →
    pairsOf? pairs = some entries → ∀ entry ∈ entries, entry.2.Ordered
  | [], read => by
    obtain rfl := Option.some.inj read
    simp
  | (key, w) :: rest, read => by
    obtain ⟨value, first, read⟩ := Option.bind_eq_some_iff.mp read
    obtain ⟨more, others, made⟩ := Option.bind_eq_some_iff.mp read
    obtain rfl := Option.some.inj made
    exact List.forall_mem_cons.mpr ⟨w.ordered first, pairs_ordered rest others⟩
end

mutual
theorem Branch.ordered {value : Toml} : (b : Branch) → b.value? = some value → value.Ordered
  | .branch _ pairs below, read => by
    obtain ⟨own, readPairs, read⟩ := Option.bind_eq_some_iff.mp read
    obtain ⟨added, readLimbs, made⟩ := Option.bind_eq_some_iff.mp read
    exact ordered_of_made
      (List.forall_mem_append.mpr ⟨pairs_ordered pairs readPairs, limbs_ordered below readLimbs⟩) made
theorem Limb.ordered {value : Toml} : (l : Limb) → l.value? = some value → value.Ordered
  | .table b, read => b.ordered read
  | .items before last, read => by
    obtain ⟨first, -, read⟩ := Option.bind_eq_some_iff.mp read
    obtain ⟨item, -, made⟩ := Option.bind_eq_some_iff.mp read
    obtain rfl := Option.some.inj made
    exact .array _
theorem limbs_ordered {entries : List (String × Toml)} : (limbs : List (String × Limb)) →
    limbsOf? limbs = some entries → ∀ entry ∈ entries, entry.2.Ordered
  | [], read => by
    obtain rfl := Option.some.inj read
    simp
  | (key, l) :: rest, read => by
    obtain ⟨value, first, read⟩ := Option.bind_eq_some_iff.mp read
    obtain ⟨more, others, made⟩ := Option.bind_eq_some_iff.mp read
    obtain rfl := Option.some.inj made
    exact List.forall_mem_cons.mpr ⟨l.ordered first, limbs_ordered rest others⟩
end

theorem ordered_of_pairs? {text : String} {pairs : List (String × Toml)} (read : pairs? text = some pairs) :
    ∀ pair ∈ pairs, pair.2.Ordered := by
  obtain ⟨sections, -, read⟩ := Option.bind_eq_some_iff.mp read
  cases sections with
  | nil =>
    obtain rfl := Option.some.inj read
    simp
  | cons root sections =>
    obtain ⟨all, -, read⟩ := Option.bind_eq_some_iff.mp read
    obtain ⟨own, readPairs, read⟩ := Option.bind_eq_some_iff.mp read
    obtain ⟨added, readLimbs, made⟩ := Option.bind_eq_some_iff.mp read
    obtain rfl := Option.some.inj made
    exact List.forall_mem_append.mpr ⟨pairs_ordered _ readPairs, limbs_ordered _ readLimbs⟩

mutual
def leaves : Toml → List (List String × Toml)
  | .table entries => leavesAll entries
  | value => [([], value)]
def leavesAll : List (String × Toml) → List (List String × Toml)
  | [] => []
  | (key, value) :: rest => (leaves value).map (fun leaf => (key :: leaf.1, leaf.2)) ++ leavesAll rest
end

theorem leaves_of_plain {value : Toml} (plain : value.isTable = false) : leaves value = [([], value)] := by
  cases value with
  | table entries => cases plain
  | scalar s => rw [leaves]; simp
  | array items => rw [leaves]; simp

theorem leaf_cons_iff {key : String} {value : Toml} {rest : List (String × Toml)} {path : List String} {leaf : Toml} :
    Leaf ((key, value) :: rest) path leaf ↔
      (value.isTable = false ∧ path = [key] ∧ leaf = value ∨
        ∃ nested below, value = .table nested ∧ path = key :: below ∧ Leaf nested below leaf) ∨
      Leaf rest path leaf := by
  constructor
  · rintro (⟨member, plain⟩ | ⟨member, found⟩)
    · rcases List.mem_cons.mp member with same | member
      · cases same
        exact .inl (.inl ⟨plain, rfl, rfl⟩)
      · exact .inr (.here member plain)
    · rcases List.mem_cons.mp member with same | member
      · cases same
        exact .inl (.inr ⟨_, _, rfl, rfl, found⟩)
      · exact .inr (.under member found)
  · rintro ((⟨plain, rfl, rfl⟩ | ⟨nested, below, rfl, rfl, found⟩) | (⟨member, plain⟩ | ⟨member, found⟩))
    · exact .here List.mem_cons_self plain
    · exact .under List.mem_cons_self found
    · exact .here (List.mem_cons_of_mem _ member) plain
    · exact .under (List.mem_cons_of_mem _ member) found

theorem mem_leavesAll_iff {path : List String} {leaf : Toml} : (entries : List (String × Toml)) →
    ((path, leaf) ∈ leavesAll entries ↔ Leaf entries path leaf)
  | [] => by
    rw [leavesAll]
    exact ⟨nofun, by rintro (⟨⟨⟩, -⟩ | ⟨⟨⟩, -⟩)⟩
  | (key, .table nested) :: rest => by
    have below (inner : List String) : (inner, leaf) ∈ leavesAll nested ↔ Leaf nested inner leaf :=
      mem_leavesAll_iff nested
    rw [leavesAll, leaf_cons_iff, List.mem_append, mem_leavesAll_iff rest, leaves, List.mem_map]
    refine or_congr_left ⟨?_, ?_⟩
    · rintro ⟨⟨inner, found⟩, member, same⟩
      cases same
      exact .inr ⟨nested, inner, rfl, rfl, (below inner).mp member⟩
    · rintro (⟨plain, -⟩ | ⟨nested', inner, same, rfl, found⟩)
      · cases plain
      · cases same
        exact ⟨(inner, leaf), (below inner).mpr found, rfl⟩
  | (key, .scalar s) :: rest => by
    rw [leavesAll, leaf_cons_iff, List.mem_append, mem_leavesAll_iff rest, leaves_of_plain rfl]
    simp [isTable]
  | (key, .array items) :: rest => by
    rw [leavesAll, leaf_cons_iff, List.mem_append, mem_leavesAll_iff rest, leaves_of_plain rfl]
    simp [isTable]

theorem Leaf.head {entries : List (String × Toml)} {path : List String} {leaf : Toml} (found : Leaf entries path leaf) :
    ∃ entry ∈ entries, ∃ below, path = entry.1 :: below := by
  cases found with
  | here member _ => exact ⟨_, member, _, rfl⟩
  | under member _ => exact ⟨_, member, _, rfl⟩

mutual
theorem leaves_sorted : {value : Toml} → value.Ordered → (leaves value).Pairwise (·.1 < ·.1)
  | .table entries, .table ascending each => by
    rw [leaves]
    exact leavesAll_sorted ascending each
  | .scalar s, _ => by
    rw [leaves_of_plain rfl]
    exact List.pairwise_singleton ..
  | .array items, _ => by
    rw [leaves_of_plain rfl]
    exact List.pairwise_singleton ..
/-- A walk meets the leaves in the order of their keys. -/
theorem leavesAll_sorted : {entries : List (String × Toml)} → entries.Pairwise (·.1 < ·.1) →
    (∀ entry ∈ entries, entry.2.Ordered) → (leavesAll entries).Pairwise (·.1 < ·.1)
  | [], _, _ => by simp [leavesAll]
  | (key, value) :: rest, ascending, each => by
    obtain ⟨first, ascendingRest⟩ := List.pairwise_cons.mp ascending
    obtain ⟨ordered, eachRest⟩ := List.forall_mem_cons.mp each
    rw [leavesAll, List.pairwise_append, List.pairwise_map]
    refine ⟨?_, leavesAll_sorted ascendingRest eachRest, ?_⟩
    · refine (leaves_sorted ordered).imp fun less => ?_
      exact List.cons_lt_cons_iff.mpr (.inr ⟨rfl, less⟩)
    · rintro found own ⟨path, leaf⟩ later
      obtain ⟨inner, -, rfl⟩ := List.mem_map.mp own
      obtain ⟨entry, member, below, rfl⟩ := ((mem_leavesAll_iff rest).mp later).head
      exact List.cons_lt_cons_iff.mpr (.inl (first entry member))
end

end Toml

namespace Configuration

section
variable (toml : Toml.Library)

/-- What a configuration has of a leaf: a string as it is, of an array its items with commas between them, and of what
is neither its text. -/
def leafText : Toml → String
  | .scalar (.text s) => s
  | .array items => ",".intercalate (items.map (itemText toml))
  | value => toml.render value

def setting (leaf : List String × Toml) : String × String := (".".intercalate leaf.1, leafText toml leaf.2)

def putAll (table : Dictionary String) (settings : List (String × String)) : Dictionary String :=
  settings.foldl (fun table setting => table.insert setting.1 setting.2) table

mutual
theorem flatten_eq (key : String) (table : Dictionary String) : (value : Toml) →
    flatten toml key table value =
      putAll table ((Toml.leaves value).map fun leaf => setting toml (key :: leaf.1, leaf.2))
  | .table nested => by rw [flatten, flattenAll_eq, Toml.leaves]
  | .array items => by
    rw [Toml.leaves_of_plain rfl]
    simp [putAll, setting, flatten, leafText]
  | .scalar s => by
    rw [Toml.leaves_of_plain rfl]
    cases s <;> simp [putAll, setting, flatten, leafText]
theorem flattenAll_eq (key : String) (table : Dictionary String) : (entries : List (String × Toml)) →
    flattenAll toml key table entries =
      putAll table ((Toml.leavesAll entries).map fun leaf => setting toml (key :: leaf.1, leaf.2))
  | [] => by simp [flattenAll, Toml.leavesAll, putAll]
  | (k, v) :: rest => by
    have joined (path : List String) :
        ".".intercalate ((key ++ "." ++ k) :: path) = ".".intercalate (key :: k :: path) := by
      rw [String.intercalate_cons_append, String.intercalate_cons_cons]
    rw [flattenAll, flattenAll_eq, flatten_eq, Toml.leavesAll]
    simp [putAll, setting, joined, List.foldl_append, Function.comp_def]
end

theorem flattenAll_top (table : Dictionary String) (entries : List (String × Toml)) :
    entries.foldl (fun table entry => flatten toml entry.1 table entry.2) table =
      putAll table ((Toml.leavesAll entries).map (setting toml)) := by
  induction entries generalizing table with
  | nil => simp [Toml.leavesAll, putAll]
  | cons entry rest ih =>
    rw [List.foldl_cons, ih, flatten_eq, Toml.leavesAll]
    simp [putAll, List.foldl_append, Function.comp_def]

/-- In a list that ascends, the last with a property is the greatest with it. -/
theorem last_iff {found : List (List String × Toml)} (sorted : found.Pairwise (·.1 < ·.1))
    {p : List String × Toml → Prop} {leaf : List String × Toml} :
    (∃ before after, found = before ++ leaf :: after ∧ ∀ later ∈ after, ¬ p later) ↔
      leaf ∈ found ∧ ∀ other ∈ found, p other → other.1 = leaf.1 ∨ other.1 < leaf.1 := by
  constructor
  · rintro ⟨before, after, rfl, none⟩
    obtain ⟨-, -, across⟩ := List.pairwise_append.mp sorted
    refine ⟨List.mem_append_right _ List.mem_cons_self, fun other member holds => ?_⟩
    rcases List.mem_append.mp member with earlier | member
    · exact .inr (across other earlier leaf List.mem_cons_self)
    · rcases List.mem_cons.mp member with rfl | later
      · exact .inl rfl
      · exact absurd holds (none other later)
  · rintro ⟨member, greatest⟩
    obtain ⟨before, after, rfl⟩ := List.append_of_mem member
    refine ⟨before, after, rfl, fun later among holds => ?_⟩
    have above := (List.pairwise_cons.mp (List.pairwise_append.mp sorted).2.1).1 later among
    rcases greatest later (by simp [among]) holds with same | less
    · exact List.lt_irrefl _ (same ▸ above)
    · exact List.lt_asymm above less

/-- The text of the last leaf counts whose keys join to the one that is looked up. -/
theorem get?_settings_eq_some_iff {entries : List (String × Toml)} (ascending : entries.Pairwise (·.1 < ·.1))
    (each : ∀ entry ∈ entries, entry.2.Ordered) {key text : String} :
    (Dictionary.ofList ((Toml.leavesAll entries).map (setting toml))).get? key = some text ↔
      ∃ path leaf, Toml.Leaf entries path leaf ∧ ".".intercalate path = key ∧ leafText toml leaf = text ∧
        ∀ other leaf', Toml.Leaf entries other leaf' → ".".intercalate other = key → other = path ∨ other < path := by
  have greatest := @last_iff _ (Toml.leavesAll_sorted ascending each) fun leaf => ".".intercalate leaf.1 = key
  simp only [← Toml.mem_leavesAll_iff]
  rw [Dictionary.get?_ofList_eq_some_iff]
  constructor
  · rintro ⟨before, after, whole, others⟩
    obtain ⟨front, back, cut, rfl, later⟩ := List.map_eq_append_iff.mp whole
    obtain ⟨⟨path, leaf⟩, rest, rfl, same, rfl⟩ := List.map_eq_cons_iff.mp later
    obtain ⟨rfl, rfl⟩ := Prod.mk.inj same
    obtain ⟨member, last⟩ := greatest.mp ⟨front, rest, cut, fun later among => others _ (List.mem_map_of_mem among)⟩
    exact ⟨path, leaf, member, rfl, rfl, fun other leaf' => last (other, leaf')⟩
  · rintro ⟨path, leaf, member, rfl, rfl, last⟩
    obtain ⟨front, rest, whole, others⟩ := greatest.mpr ⟨member, fun other => last other.1 other.2⟩
    refine ⟨front.map (setting toml), rest.map (setting toml), by simp [whole, setting], fun pair among => ?_⟩
    obtain ⟨later, behind, rfl⟩ := List.mem_map.mp among
    exact others later behind

/-- A leaf of a file, apart from its version. -/
def Setting (pairs : List (String × Toml)) (path : List String) (leaf : Toml) : Prop :=
  Toml.Leaf (Dictionary.ofList pairs).entries path leaf ∧ path ≠ [versionKey]

/-- The file asks for no version, or for this one. -/
def IsCurrent (pairs : List (String × Toml)) : Prop :=
  pairs.filter (·.1 == versionKey) = [] ∨
    pairs.filter (·.1 == versionKey) = [(versionKey, .scalar (.text engineVersion))]

theorem mem_entries_filter_iff {pairs : List (String × Toml)} {key : String} {value : Toml} :
    (key, value) ∈ (Dictionary.ofList (pairs.filter (!·.1 == versionKey))).entries ↔
      (key, value) ∈ (Dictionary.ofList pairs).entries ∧ key ≠ versionKey := by
  have looked (pairs : List (String × Toml)) : (pairs.filter (!·.1 == versionKey)).lookup key =
      if key = versionKey then none else pairs.lookup key := by
    induction pairs with
    | nil => simp
    | cons pair pairs ih =>
      rw [List.filter_cons, Dictionary.lookup_cons_eq_if, apply_ite (List.lookup key), Dictionary.lookup_cons_eq_if, ih]
      grind
  rw [Dictionary.mem_entries_iff, Dictionary.mem_entries_iff, Dictionary.get?_ofList, Dictionary.get?_ofList,
    ← List.filter_reverse, looked]
  grind

theorem isCurrent_of_requiredVersion {pairs : List (String × Toml)}
    (asked : (requiredVersion (pairs.filter (·.1 == versionKey))).toOption = some (some engineVersion)) :
    IsCurrent pairs := by
  cases found : pairs.filter (·.1 == versionKey) with
  | nil => exact .inl found
  | cons pair rest =>
    have named : pair.1 = versionKey := by
      simpa using (List.mem_filter.mp (found ▸ List.mem_cons_self : pair ∈ pairs.filter (·.1 == versionKey))).2
    rw [found] at asked
    unfold requiredVersion at asked
    split at asked
    · cases asked
    · rename_i key version same
      obtain ⟨rfl, rfl⟩ := List.cons.inj same
      obtain rfl : version = engineVersion := by simpa [Except.toOption] using asked
      exact .inr (found.trans (by rw [← named]))
    · cases asked

/-- Nothing lies below the version. -/
theorem IsCurrent.no_table {pairs nested : List (String × Toml)} (current : IsCurrent pairs) :
    (versionKey, .table nested) ∉ (Dictionary.ofList pairs).entries := by
  intro member
  have among : (versionKey, .table nested) ∈ pairs.filter (·.1 == versionKey) :=
    List.mem_filter.mpr ⟨Dictionary.mem_of_mem_entries member, beq_self_eq_true _⟩
  rcases current with none | one
  · simp [none] at among
  · simp [one] at among

theorem leaf_filter_iff {pairs : List (String × Toml)} (current : IsCurrent pairs) {path : List String} {leaf : Toml} :
    Toml.Leaf (Dictionary.ofList (pairs.filter (!·.1 == versionKey))).entries path leaf ↔ Setting pairs path leaf := by
  constructor
  · rintro (⟨member, plain⟩ | ⟨member, found⟩)
    · obtain ⟨member, other⟩ := mem_entries_filter_iff.mp member
      exact ⟨.here member plain, by simpa using other⟩
    · obtain ⟨member, other⟩ := mem_entries_filter_iff.mp member
      exact ⟨.under member found, fun same => other (List.cons.inj same).1⟩
  · rintro ⟨⟨member, plain⟩ | ⟨member, found⟩, other⟩
    · exact .here (mem_entries_filter_iff.mpr ⟨member, by simpa using other⟩) plain
    · refine .under (mem_entries_filter_iff.mpr ⟨member, ?_⟩) found
      rintro rfl
      exact current.no_table member

theorem ofPairs_eq {pairs : List (String × Toml)} (current : IsCurrent pairs) :
    ofPairs toml pairs = .ok (.entries (.ofList
      ((Toml.leavesAll (Dictionary.ofList (pairs.filter (!·.1 == versionKey))).entries).map (setting toml)))) := by
  have top := flattenAll_top toml .empty (Dictionary.ofList (pairs.filter (!·.1 == versionKey))).entries
  unfold ofPairs
  rw [List.partition_eq_filter_filter]
  rcases current with none | one
  · rw [none]
    exact congrArg (fun table => Except.ok (entries table)) top
  · rw [one]
    exact congrArg (fun table => Except.ok (entries table)) top

end

/-- Of a file whose version is this one, a configuration has a key for each leaf apart from the version, the keys of the
leaf joined by points. Under it stands the text of the last leaf with this key, in the order of the keys at every level,
so that a leaf is lost only to another one that has the same key. This holds of any library for such files whose tables
are in this order, and in the one that is used all of them are. -/
theorem leaves_told :
    (∀ text pairs, Toml.library.pairs? text = some pairs → ∀ pair ∈ pairs, pair.2.Ordered) ∧
    ∀ (toml : Toml.Library) (text : String) (pairs : List (String × Toml)), toml.pairs? text = some pairs →
      (∀ pair ∈ pairs, pair.2.Ordered) → IsCurrent pairs →
      ∃ table : Dictionary String, read toml text = .ok (.entries table) ∧
        (∀ key, key ∈ table.keys ↔ ∃ path leaf, Setting pairs path leaf ∧ ".".intercalate path = key) ∧
        (∀ key value, table.get? key = some value ↔
          ∃ path leaf, Setting pairs path leaf ∧ ".".intercalate path = key ∧ leafText toml leaf = value ∧
            ∀ other leaf', Setting pairs other leaf' → ".".intercalate other = key → other = path ∨ other < path) ∧
        ∀ path leaf, Setting pairs path leaf → table.get? (".".intercalate path) = some (leafText toml leaf) ∨
          ∃ other leaf', Setting pairs other leaf' ∧ other ≠ path ∧ ".".intercalate other = ".".intercalate path := by
  refine ⟨fun text pairs parsed => Toml.ordered_of_pairs? parsed, fun toml text pairs parsed ordered current => ?_⟩
  have each : ∀ entry ∈ (Dictionary.ofList (pairs.filter (!·.1 == versionKey))).entries, entry.2.Ordered :=
    fun entry member => ordered entry (List.mem_filter.mp (Dictionary.mem_of_mem_entries member)).1
  have told (key value : String) := @get?_settings_eq_some_iff toml _ (Dictionary.sorted _) each key value
  simp only [leaf_filter_iff current] at told
  have whole := ofPairs_eq toml current
  refine ⟨_, by rw [read, parsed]; exact whole, fun key => ?_, told, fun path leaf found => ?_⟩
  · simp only [Dictionary.mem_keys_ofList, List.map_map, List.mem_map, Prod.exists, Function.comp_apply, setting,
      Toml.mem_leavesAll_iff, leaf_filter_iff current]
  · by_cases lost : ∃ other leaf', Setting pairs other leaf' ∧ other ≠ path ∧
        ".".intercalate other = ".".intercalate path
    · exact .inr lost
    · refine .inl ((told _ _).mpr ⟨path, leaf, found, rfl, rfl, fun other leaf' below joined => ?_⟩)
      exact .inl (Decidable.byContradiction fun apart => lost ⟨other, leaf', below, apart, joined⟩)

/-- Two leaves have the same key, and one table is empty. -/
def colliding : String :=
  "\"a.b\" = \"1\"\nver = \"0.3.0\"\nx = [\"p\", true]\n[a]\nb = 2\nc = \x7b\x7d\n"

theorem leaves_told_colliding :
    (ofText colliding).toOption.map (fun c => (c.keys, c.get? "a.b", c.get? "x")) =
      some (["a.b", "x"], some "1", some "p,true") ∧
    ∃ pairs, Toml.library.pairs? colliding = some pairs ∧ (∀ pair ∈ pairs, pair.2.Ordered) ∧ IsCurrent pairs ∧
      ∃ table : Dictionary String, ofText colliding = .ok (.entries table) ∧
        ∀ key, key ∈ table.keys ↔ ∃ path leaf, Setting pairs path leaf ∧ ".".intercalate path = key := by
  have asked : ((Toml.library.pairs? colliding).bind fun pairs =>
      (requiredVersion (pairs.filter (·.1 == versionKey))).toOption) = some (some engineVersion) := by decide +kernel
  obtain ⟨pairs, parsed, asked⟩ := Option.bind_eq_some_iff.mp asked
  have current := isCurrent_of_requiredVersion asked
  have ordered := leaves_told.1 colliding pairs parsed
  obtain ⟨table, told, keys, -⟩ := leaves_told.2 Toml.library colliding pairs parsed ordered current
  exact ⟨by decide +kernel, pairs, parsed, ordered, current, table, told, keys⟩

end Configuration
end TestEngine

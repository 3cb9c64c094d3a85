import TestEngine.Proofs.Reading
import TestEngine.Selection

/-! Selections of numbers. They are read from parts between commas, each a number or a range, and a selection contains
the numbers in its parts. Its highest number bounds those that it contains, empty ranges left aside. -/
namespace TestEngine

namespace Selection

theorem contains_iff {s : Selection} : s.contains i ↔ ∃ r ∈ s.ranges, r.1 ≤ i ∧ i ≤ r.2 := by
  simp [contains]

/-- The highest number is that of a selection that has one at all. -/
theorem max?_of_contains {s : Selection} (h : s.contains i) :
    ∃ last, s.max? = some last ∧ s.contains last ∧ ∀ j, s.contains j → j ≤ last := by
  obtain ⟨r, member, low, high⟩ := contains_iff.mp h
  have nonempty : (s.ranges.filter fun r => r.1 ≤ r.2).map (·.2) ≠ [] :=
    List.ne_nil_of_mem (List.mem_map_of_mem (List.mem_filter.mpr ⟨member, by simp; omega⟩))
  obtain ⟨last, highest⟩ := Option.isSome_iff_exists.mp (List.isSome_max?_of_ne_nil nonempty)
  obtain ⟨among, above⟩ := List.max?_eq_some_iff.mp highest
  obtain ⟨top, member, rfl⟩ := List.mem_map.mp among
  obtain ⟨member, proper⟩ := List.mem_filter.mp member
  refine ⟨top.2, highest, contains_iff.mpr ⟨top, member, by simpa using proper, Nat.le_refl _⟩, fun j h => ?_⟩
  obtain ⟨r, member, low, high⟩ := contains_iff.mp h
  have within := above r.2 (List.mem_map_of_mem (List.mem_filter.mpr ⟨member, by simp; omega⟩))
  omega

theorem max?_eq_some_iff {s : Selection} :
    s.max? = some last ↔ s.contains last ∧ ∀ j, s.contains j → j ≤ last := by
  constructor
  · intro highest
    obtain ⟨among, _⟩ := List.max?_eq_some_iff.mp highest
    obtain ⟨r, member, rfl⟩ := List.mem_map.mp among
    obtain ⟨member, proper⟩ := List.mem_filter.mp member
    have contained : s.contains r.2 := contains_iff.mpr ⟨r, member, by simpa using proper, Nat.le_refl _⟩
    obtain ⟨top, same, contains, above⟩ := max?_of_contains contained
    cases same.symm.trans highest
    exact ⟨contains, above⟩
  · rintro ⟨contained, above⟩
    obtain ⟨top, same, contains, below⟩ := max?_of_contains contained
    rw [same, Nat.le_antisymm (above top contains) (below last contained)]

theorem max?_eq_none_iff {s : Selection} : s.max? = none ↔ ∀ i, ¬ s.contains i := by
  constructor
  · intro none i contained
    obtain ⟨last, highest, _⟩ := max?_of_contains contained
    rw [none] at highest
    contradiction
  · intro nothing
    cases highest : s.max? with
    | none => rfl
    | some last => exact absurd (max?_eq_some_iff.mp highest).1 (nothing last)

/-- A part of the text: a number, which stands for itself alone, or the ends of a range around a minus sign. -/
inductive Denotes : List Char → Nat → Nat → Prop where
  | index {cs : List Char} {n : Nat} : Decimal.Padded cs n → Denotes cs n n
  | range {before after : List Char} {first last : Nat} : Decimal.Padded before first → Decimal.Padded after last →
      Denotes (before ++ '-' :: after) first last

/-- There is no minus sign in what stands for one number. -/
theorem not_mem_minus {cs : List Char} {n : Nat} (padded : Decimal.Padded cs n) : '-' ∉ cs := by
  obtain ⟨left, word, right, rfl, before, after, isWord⟩ := padded
  intro member
  simp only [List.mem_append] at member
  rcases member with (member | member) | member
  · exact absurd (before _ member) (by decide)
  · rcases isWord.mem member with digit | plus <;> contradiction
  · exact absurd (after _ member) (by decide)

theorem minus_mem_trim_iff {cs : List Char} : '-' ∈ Text.trim cs ↔ '-' ∈ cs := by
  obtain ⟨left, right, whole, before, after⟩ := Text.exists_trim cs
  have outside {blanks : List Char} (blank : Text.Blank blanks) : '-' ∉ blanks := fun member =>
    absurd (blank _ member) (by decide)
  conv_rhs => rw [whole]
  simp [outside before, outside after]

/-- A part is read without the blanks around it, and so are the ends of a range. -/
theorem parsePart?_trim_iff {piece : List Char} {first last : Nat} :
    parsePart? (Text.trim piece) = some (first, last) ↔ Denotes piece first last := by
  cases cut : Text.splitOnce '-' (Text.trim piece) with
  | none =>
    have single : '-' ∉ piece := mt minus_mem_trim_iff.mpr (Text.splitOnce_eq_none_iff.mp cut)
    simp only [parsePart?, cut, Option.map_eq_some_iff, Decimal.word?_trim_iff, Prod.mk.injEq]
    constructor
    · rintro ⟨n, padded, rfl, rfl⟩
      exact .index padded
    · rintro (padded | _)
      · exact ⟨_, padded, rfl, rfl⟩
      · simp at single
  | some ends =>
    obtain ⟨before, after⟩ := ends
    obtain ⟨left, right, whole, leftBlank, rightBlank⟩ := Text.exists_trim piece
    obtain ⟨apart, trimmed⟩ := Text.splitOnce_eq_some_iff.mp cut
    have pieceCut : Text.splitOnce '-' piece = some (left ++ before, after ++ right) := by
      refine Text.splitOnce_eq_some_iff.mpr ⟨?_, by rw [whole, trimmed]; simp⟩
      simpa [apart] using fun member => absurd (leftBlank _ member) (by decide)
    have ends : parsePart? (Text.trim piece) = some (first, last) ↔
        Decimal.Padded (left ++ before) first ∧ Decimal.Padded (after ++ right) last := by
      rw [← Decimal.word?_trim_iff, ← Decimal.word?_trim_iff, Text.trim_append_left leftBlank,
        Text.trim_append_right rightBlank]
      simp [parsePart?, cut, Option.bind_eq_some_iff]
    rw [ends]
    constructor
    · rintro ⟨low, high⟩
      obtain ⟨-, rfl⟩ := Text.splitOnce_eq_some_iff.mp pieceCut
      exact .range low high
    · rintro (padded | ⟨low, high⟩)
      · exact absurd (minus_mem_trim_iff.mp (by rw [trimmed]; simp)) (not_mem_minus padded)
      · rw [Text.splitOnce_append (not_mem_minus low)] at pieceCut
        cases pieceCut
        exact ⟨low, high⟩

/-- The pieces of a text between its commas, the blank ones left out. -/
def pieces (text : String) : List (List Char) := (text.toList.splitOn ',').filter fun piece => Text.trim piece ≠ []

theorem parse_eq (text : String) : parse text =
    match (pieces text).mapM fun piece => parsePart? (Text.trim piece) with
    | some ranges => .ok ⟨ranges⟩
    | none => .error (invalid text) := by
  have parts : ((Text.split ',' text.toList).map Text.trim).filter (!·.isEmpty) = (pieces text).map Text.trim := by
    rw [Text.split_eq_splitOn, List.filter_map]
    refine congrArg (List.map Text.trim) (List.filter_congr fun piece _ => ?_)
    cases h : Text.trim piece <;> simp [h]
  rw [parse, parts, List.mapM_map]
  rfl

/-- The ranges that a text is read as are those of its pieces. -/
theorem mem_ranges_iff {text : String} {s : Selection} (read : parse text = .ok s) (r : Nat × Nat) :
    r ∈ s.ranges ↔ ∃ piece ∈ pieces text, Denotes piece r.1 r.2 := by
  rw [parse_eq] at read
  split at read
  · rename_i ranges each
    cases read
    simp only [Text.mem_of_mapM each, ← parsePart?_trim_iff]
  · contradiction

theorem exists_parse_eq_ok_iff {text : String} : (∃ s, parse text = .ok s) ↔
    ∀ piece ∈ text.toList.splitOn ',', Text.Blank piece ∨ ∃ first last, Denotes piece first last := by
  have read : (∃ s, parse text = .ok s) ↔
      ((pieces text).mapM fun piece => parsePart? (Text.trim piece)).isSome = true := by
    rw [parse_eq]
    split <;> simp_all
  rw [read, Text.mapM_isSome_iff]
  simp only [pieces, List.mem_filter, decide_eq_true_eq, and_imp, Option.isSome_iff_exists, Prod.exists,
    parsePart?_trim_iff, Text.blank_iff_trim_eq_nil, or_iff_not_imp_left]

theorem not_denotes_of_blank {piece : List Char} (blank : Text.trim piece = []) (first last : Nat) :
    ¬ Denotes piece first last := by
  rw [← parsePart?_trim_iff, blank]
  simp [parsePart?, Text.splitOnce, Decimal.word?]

/-- A text is read as a selection if and only if each part of it between commas is blank, a number or a range. What is
read contains the numbers in its parts, the ends of ranges included. And whatever a selection has been made of, its
highest number is the greatest of those that it contains, if it contains any. -/
theorem read_by_parts (text : String) :
    let parts := text.toList.splitOn ','
    ((∃ s, parse text = .ok s) ↔ ∀ part ∈ parts, Text.Blank part ∨ ∃ first last, Denotes part first last) ∧
    ((¬ ∃ s, parse text = .ok s) ↔ parse text = .error (invalid text)) ∧
    (∀ s, parse text = .ok s → ∀ i, s.contains i = true ↔
      ∃ part ∈ parts, ∃ first last, Denotes part first last ∧ first ≤ i ∧ i ≤ last) ∧
    ∀ s : Selection, (∀ last, s.max? = some last ↔ s.contains last = true ∧ ∀ i, s.contains i = true → i ≤ last) ∧
      (s.max? = none ↔ ∀ i, ¬ s.contains i = true) := by
  refine ⟨exists_parse_eq_ok_iff, ?_, fun s read i => ?_, fun s => ⟨fun last => max?_eq_some_iff, max?_eq_none_iff⟩⟩
  · rw [parse_eq]
    split <;> simp
  · rw [contains_iff]
    constructor
    · rintro ⟨r, member, within⟩
      obtain ⟨part, among, denotes⟩ := (mem_ranges_iff read r).mp member
      exact ⟨part, (List.mem_filter.mp among).1, r.1, r.2, denotes, within⟩
    · rintro ⟨part, member, first, last, denotes, within⟩
      have something : Text.trim part ≠ [] := fun blank => not_denotes_of_blank blank first last denotes
      have among : part ∈ pieces text := List.mem_filter.mpr ⟨member, decide_eq_true something⟩
      exact ⟨(first, last), (mem_ranges_iff read _).mpr ⟨part, among, denotes⟩, within⟩

/-- Blanks and signs, a blank part and a range with its ends reversed. -/
theorem read_by_parts_mixed : ∃ s, parse " 1,3 - 5,,+7,9-8" = .ok s ∧ s.max? = some 7 ∧ s.contains 9 = false ∧
    ∀ i, s.contains i = true ↔ ∃ part ∈ " 1,3 - 5,,+7,9-8".toList.splitOn ',', ∃ first last,
      Denotes part first last ∧ first ≤ i ∧ i ≤ last := by
  have read : parse " 1,3 - 5,,+7,9-8" = .ok ⟨[(1, 1), (3, 5), (7, 7), (9, 8)]⟩ := by decide +kernel
  exact ⟨_, read, by decide, by decide, (read_by_parts _).2.2.1 _ read⟩

end Selection
end TestEngine

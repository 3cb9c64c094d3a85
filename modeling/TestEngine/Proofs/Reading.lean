import Mathlib.Data.List.TakeWhile
import Mathlib.Data.Nat.Digits.Defs
import TestEngine.Decimal.Whole
import TestEngine.Text.Blank

/-! What is read from text: piece by piece, without the blanks around it, and as numbers, which are written with digits
that zeros and one plus may precede. -/
namespace TestEngine

namespace Text

theorem mem_of_mapM {α β : Type} {f : α → Option β} {xs : List α} {ys : List β} (read : xs.mapM f = some ys) (y : β) :
    y ∈ ys ↔ ∃ x ∈ xs, f x = some y := by
  induction xs generalizing ys with
  | nil =>
    cases read
    simp
  | cons x xs ih =>
    simp only [List.mapM_cons, Option.bind_eq_bind, Option.bind_eq_some_iff, Option.pure_def, Option.some.injEq] at read
    obtain ⟨y', here, ys', later, rfl⟩ := read
    simp only [List.mem_cons, exists_eq_or_imp, ih later, here, Option.some.injEq, @eq_comm β y]

theorem mapM_isSome_iff {α β : Type} {f : α → Option β} {xs : List α} :
    (xs.mapM f).isSome = true ↔ ∀ x ∈ xs, (f x).isSome = true := by
  induction xs with
  | nil => simp
  | cons x xs ih =>
    rw [List.forall_mem_cons, ← ih]
    cases h : f x <;> cases h' : xs.mapM f <;> simp [List.mapM_cons, h, h']

end Text

namespace Decimal

/-- The text of `n` in decimal digits, which zeros may precede. -/
def IsNumeral (cs : List Char) (n : Nat) : Prop :=
  cs ≠ [] ∧ (∀ c ∈ cs, c.isDigit = true) ∧ n = Nat.ofDigits 10 (cs.map fun c => c.toNat - '0'.toNat).reverse

theorem digits?_eq_some_iff {cs : List Char} (n m : Nat) :
    digits? n cs = some m ↔ (∀ c ∈ cs, c.isDigit = true) ∧
      m = n * 10 ^ cs.length + Nat.ofDigits 10 (cs.map fun c => c.toNat - '0'.toNat).reverse := by
  induction cs generalizing n with
  | nil => simpa [digits?] using eq_comm
  | cons c cs ih =>
    by_cases digit : c.isDigit = true
    · have place (d r : Nat) :
          (n * 10 + d) * 10 ^ cs.length + r = n * 10 ^ (cs.length + 1) + (r + 10 ^ cs.length * d) := by
        ring
      rw [digits?, if_pos digit, ih]
      simp only [List.forall_mem_cons, digit, true_and, List.length_cons, List.map_cons, List.reverse_cons,
        Nat.ofDigits_append, List.length_reverse, List.length_map, Nat.ofDigits_singleton, place]
    · simp [digits?, digit]

/-- What is read behind the sign is a numeral, and its number fits a word. -/
theorem unsigned_iff {cs : List Char} (n : Nat) :
    (if cs.isEmpty then none else (digits? 0 cs).filter (· < wordLimit)) = some n ↔
      IsNumeral cs n ∧ n < wordLimit := by
  cases cs with
  | nil => simp [IsNumeral]
  | cons c cs =>
    simp only [List.isEmpty_cons, Bool.false_eq_true, if_false, Option.filter_eq_some_iff, digits?_eq_some_iff,
      decide_eq_true_eq, IsNumeral, ne_eq, reduceCtorEq, not_false_eq_true, true_and, Nat.zero_mul, Nat.zero_add]

/-- The text of a number that fits a word, with a plus in front or without. -/
def IsWord (cs : List Char) (n : Nat) : Prop :=
  ∃ digits, (cs = digits ∨ cs = '+' :: digits) ∧ IsNumeral digits n ∧ n < wordLimit

theorem IsNumeral.not_plus {cs : List Char} {n : Nat} (numeral : IsNumeral cs n) : '+' ∉ cs := fun plus =>
  absurd (numeral.2.1 '+' plus) (by decide)

theorem word?_iff_isWord {cs : List Char} (n : Nat) : word? cs = some n ↔ IsWord cs n := by
  unfold word?
  split
  · rename_i digits
    refine (unsigned_iff n).trans ⟨fun number => ⟨digits, .inr rfl, number⟩, ?_⟩
    rintro ⟨digits', rfl | same, numeral, fits⟩
    · exact absurd List.mem_cons_self numeral.not_plus
    · cases same
      exact ⟨numeral, fits⟩
  · rename_i unsigned
    refine (unsigned_iff n).trans ⟨fun number => ⟨cs, .inl rfl, number⟩, ?_⟩
    rintro ⟨digits, rfl | rfl, number⟩
    · exact number
    · exact absurd rfl (unsigned digits)

/-- Without a sign a number is read where it stands as a numeral and fits a word. -/
theorem word?_eq_some_iff {cs : List Char} (unsigned : '+' ∉ cs) (n : Nat) :
    word? cs = some n ↔ IsNumeral cs n ∧ n < wordLimit := by
  rw [word?_iff_isWord]
  constructor
  · rintro ⟨digits, rfl | rfl, number⟩
    · exact number
    · exact absurd List.mem_cons_self unsigned
  · exact fun number => ⟨cs, .inl rfl, number⟩

end Decimal

namespace Text

def Blank (cs : List Char) : Prop := ∀ c ∈ cs, isBlank c = true

theorem trim_append_left {left : List Char} (blank : Blank left) (cs : List Char) : trim (left ++ cs) = trim cs := by
  rw [trim, List.dropWhile_append_of_pos blank, trim]

theorem trim_append_right {right : List Char} (blank : Blank right) (cs : List Char) :
    trim (cs ++ right) = trim cs := by
  have blank' : Blank right.reverse := fun c member => blank c (List.mem_reverse.mp member)
  have nothing : right.dropWhile isBlank = [] := List.dropWhile_eq_nil_iff.mpr blank
  unfold trim
  rw [List.dropWhile_append]
  split
  · rename_i empty
    rw [nothing, List.isEmpty_iff.mp empty]
  · rw [List.reverse_append, List.dropWhile_append_of_pos blank']

/-- Only blanks are cut off. -/
theorem exists_trim (cs : List Char) :
    ∃ left right, cs = left ++ trim cs ++ right ∧ Blank left ∧ Blank right := by
  let inner := cs.dropWhile isBlank
  refine ⟨cs.takeWhile isBlank, (inner.reverse.takeWhile isBlank).reverse, ?_, fun _ => List.mem_takeWhile_imp,
    fun c member => List.mem_takeWhile_imp (List.mem_reverse.mp member)⟩
  have back : trim cs ++ (inner.reverse.takeWhile isBlank).reverse = inner := by
    rw [trim, ← List.reverse_append, List.takeWhile_append_dropWhile, List.reverse_reverse]
  rw [List.append_assoc, back, List.takeWhile_append_dropWhile]

theorem trim_eq_self {cs : List Char} (solid : ∀ c ∈ cs, isBlank c = false) : trim cs = cs := by
  have whole {cs : List Char} (solid : ∀ c ∈ cs, isBlank c = false) : cs.dropWhile isBlank = cs := by
    cases cs with
    | nil => rfl
    | cons c cs => simp [solid c List.mem_cons_self]
  rw [trim, whole solid, whole fun c member => solid c (List.mem_reverse.mp member), List.reverse_reverse]

theorem blank_iff_trim_eq_nil {cs : List Char} : Blank cs ↔ trim cs = [] := by
  constructor
  · intro blank
    simpa [trim] using trim_append_right blank []
  · intro nothing
    obtain ⟨left, right, whole, before, after⟩ := exists_trim cs
    rw [nothing, List.append_nil] at whole
    rw [whole]
    exact fun c member => (List.mem_append.mp member).elim (before c) (after c)

end Text

namespace Decimal

theorem not_blank_of_isDigit {c : Char} (digit : c.isDigit = true) : Text.isBlank c = false := by
  have code : 48 ≤ c.toNat ∧ c.toNat ≤ 57 := by
    simpa [Char.isDigit, Char.le_def, UInt32.le_iff_toNat_le] using digit
  simp only [Text.isBlank, CharSet.contains, CharSet.blank, List.any_cons, List.any_nil, Bool.or_false,
    Bool.or_eq_false_iff, Bool.and_eq_false_imp, decide_eq_true_eq, decide_eq_false_iff_not, not_le]
  omega

theorem IsWord.mem {cs : List Char} {n : Nat} (word : IsWord cs n) {c : Char} (member : c ∈ cs) :
    c.isDigit = true ∨ c = '+' := by
  obtain ⟨digits, rfl | rfl, ⟨_, each, _⟩, _⟩ := word
  · exact .inl (each c member)
  · rcases List.mem_cons.mp member with rfl | member
    · exact .inr rfl
    · exact .inl (each c member)

theorem IsWord.solid {cs : List Char} {n : Nat} (word : IsWord cs n) : ∀ c ∈ cs, Text.isBlank c = false := by
  intro c member
  rcases word.mem member with digit | rfl
  · exact not_blank_of_isDigit digit
  · decide

/-- The text of a number with blanks around it, if there are any. -/
def Padded (cs : List Char) (n : Nat) : Prop :=
  ∃ left word right, cs = left ++ word ++ right ∧ Text.Blank left ∧ Text.Blank right ∧ IsWord word n

theorem word?_trim_iff {cs : List Char} (n : Nat) : word? (Text.trim cs) = some n ↔ Padded cs n := by
  rw [word?_iff_isWord]
  constructor
  · intro word
    obtain ⟨left, right, whole, before, after⟩ := Text.exists_trim cs
    exact ⟨left, _, right, whole, before, after, word⟩
  · rintro ⟨left, word, right, rfl, before, after, isWord⟩
    rwa [Text.trim_append_right after, Text.trim_append_left before, Text.trim_eq_self isWord.solid]

end Decimal

end TestEngine

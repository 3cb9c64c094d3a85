import Mathlib.Data.List.Infix
import Mathlib.Data.List.Pairwise

/-! Words in a text that are filled with what is given for them. Filling takes one pass from the left, so that what is
put in for a word is not read again; replacing a word throughout a text fills it. -/
namespace TestEngine.Text
open String.Slice.Pattern String.Slice.Pattern.Model

variable {given : List (String × String)}

/-- Whether one of the words stands at the start. -/
def Begins (given : List (String × String)) (text : List Char) : Prop := ∃ pair ∈ given, pair.1.toList <+: text

instance (text : List Char) : Decidable (Begins given text) :=
  inferInstanceAs (Decidable (∃ pair ∈ given, pair.1.toList <+: text))

def occurrences (given : List (String × String)) (text : List Char) : Nat :=
  text.tails.countP fun rest => Begins given rest

/-- A text and what becomes of it when each word is filled with the value given for it. -/
inductive Filled (given : List (String × String)) : List Char → List Char → Prop
  | nil : Filled given [] []
  | word {word value : String} {rest out : List Char} : (word, value) ∈ given → Filled given rest out →
      Filled given (word.toList ++ rest) (value.toList ++ out)
  | literal {c : Char} {rest out : List Char} : ¬ Begins given (c :: rest) → Filled given rest out →
      Filled given (c :: rest) (c :: out)

theorem begins_append_iff {given more : List (String × String)} {text : List Char} :
    Begins (given ++ more) text ↔ Begins given text ∨ Begins more text := by
  simp only [Begins, List.mem_append, or_and_right, exists_or]

theorem occurrences_cons (c : Char) (rest : List Char) :
    occurrences given (c :: rest) = occurrences given rest + if Begins given (c :: rest) then 1 else 0 := by
  rw [occurrences, List.tails_cons, List.countP_cons, occurrences]
  simp only [decide_eq_true_eq]

theorem occurrences_le_append (given : List (String × String)) (mid rest : List Char) :
    occurrences given rest ≤ occurrences given (mid ++ rest) := by
  induction mid with
  | nil => exact Nat.le_refl _
  | cons c mid ih =>
    rw [List.cons_append, occurrences_cons]
    omega

theorem Filled.cons_iff {c : Char} {rest text : List Char} : Filled given (c :: rest) text ↔
    (∃ pair ∈ given, ∃ after out, c :: rest = pair.1.toList ++ after ∧ text = pair.2.toList ++ out ∧
      Filled given after out) ∨
    ¬ Begins given (c :: rest) ∧ ∃ out, text = c :: out ∧ Filled given rest out := by
  constructor
  · intro filled
    generalize whole : c :: rest = start at filled
    cases filled with
    | nil => cases whole
    | word member filled => exact .inl ⟨_, member, _, _, rfl, rfl, filled⟩
    | literal none filled =>
      cases whole
      exact .inr ⟨none, _, rfl, filled⟩
  · rintro (⟨pair, member, after, out, whole, rfl, filled⟩ | ⟨none, out, rfl, filled⟩)
    · rw [whole]
      exact .word member filled
    · exact .literal none filled

theorem Filled.literal_iff {c : Char} {rest text : List Char} (none : ¬ Begins given (c :: rest)) :
    Filled given (c :: rest) text ↔ ∃ out, text = c :: out ∧ Filled given rest out := by
  rw [Filled.cons_iff, and_iff_right none]
  refine or_iff_right ?_
  rintro ⟨pair, member, after, -, whole, -⟩
  exact none ⟨pair, member, after, whole.symm⟩

/-- A part in which no word begins stays as it is. -/
theorem Filled.append_iff {mid rest text : List Char}
    (none : occurrences given (mid ++ rest) = occurrences given rest) :
    Filled given (mid ++ rest) text ↔ ∃ out, text = mid ++ out ∧ Filled given rest out := by
  induction mid generalizing text with
  | nil => simp
  | cons c mid ih =>
    have more := occurrences_le_append given mid rest
    rw [List.cons_append, occurrences_cons] at none
    have here : ¬ Begins given (c :: (mid ++ rest)) := fun begins => by
      rw [if_pos begins] at none
      omega
    rw [if_neg here, Nat.add_zero] at none
    rw [List.cons_append, Filled.literal_iff here]
    constructor
    · rintro ⟨out, rfl, filled⟩
      obtain ⟨later, rfl, behind⟩ := (ih none).mp filled
      exact ⟨later, rfl, behind⟩
    · rintro ⟨out, rfl, filled⟩
      exact ⟨mid ++ out, rfl, (ih none).mpr ⟨out, rfl, filled⟩⟩

/-- What a step of a search adds to a text in which matches are replaced. -/
def replaceStep (value : String) (s : String.Slice) (sofar : String) : SearchStep s → String
  | .matched .. => sofar ++ value
  | .rejected start stop => sofar ++ (s.slice! start stop).copy

theorem replace_eq_foldl (s word value : String) : s.replace word value =
    (ToForwardSearcher.toSearcher word s.toSlice).toList.foldl (replaceStep value s.toSlice) "" := by
  rw [Std.Iter.foldl_toList, String.replace, String.Slice.replace]
  congr
  funext sofar step
  cases step with
  | matched start stop => exact congrArg (sofar ++ ·) String.copy_toSlice
  | rejected start stop => rfl

theorem occurrences_append_of_not_begins {mid rest : List Char}
    (none : ∀ before after, mid = before ++ after → after ≠ [] → ¬ Begins given (after ++ rest)) :
    occurrences given (mid ++ rest) = occurrences given rest := by
  induction mid with
  | nil => rfl
  | cons c mid ih =>
    have here : ¬ Begins given (c :: (mid ++ rest)) := none [] (c :: mid) rfl (List.cons_ne_nil c mid)
    rw [List.cons_append, occurrences_cons, if_neg here, Nat.add_zero]
    exact ih fun before after cut => none (c :: before) after (by rw [cut, List.cons_append])

/-- Where a search finds no match between two positions, the word begins nowhere in the part between them. -/
theorem not_begins_between {word : String} (value : String) {s : String.Slice} {start stop : s.Pos}
    {before mid : String} (splits : start.Splits before (mid ++ (s.sliceFrom stop).copy)) (cut : (s.sliceTo stop).copy = before ++ mid)
    (none : ∀ pos, start ≤ pos → pos < stop → ¬ MatchesAt word pos) (front back : List Char)
    (parts : mid.toList = front ++ back) (nonempty : back ≠ []) :
    ¬ Begins [(word, value)] (back ++ (s.sliceFrom stop).copy.toList) := by
  rintro ⟨pair, member, rest, begins⟩
  obtain rfl := List.mem_singleton.mp member
  have parts : mid = String.ofList front ++ String.ofList back := by
    rw [← String.ofList_append, ← parts, String.ofList_toList]
  have begins : String.ofList back ++ (s.sliceFrom stop).copy = word ++ String.ofList rest := by
    rw [← String.toList_inj]
    simpa using begins.symm
  have there : s.copy = (before ++ String.ofList front) ++ (word ++ String.ofList rest) := by
    rw [splits.eq_append, parts, ← begins]
    simp only [String.append_assoc]
  have between := String.Slice.Pos.splits_ofEqAppend there
  refine none _ ((splits.le_iff_exists_eq_append between).mpr ⟨String.ofList front, rfl, ?_⟩)
    ((between.lt_iff_exists_eq_append stop.splits).mpr ⟨String.ofList back, ?_, ?_, begins.symm⟩)
    (ForwardStringSearcher.matchesAt_iff_splits.mpr ⟨_, _, between⟩)
  · rw [← begins, parts, String.append_assoc]
  · simpa using nonempty
  · rw [cut, parts, String.append_assoc]

/-- What a search that is under way puts behind the text made so far. -/
theorem filled_of_search {word : String} (value : String) {s : String.Slice} {pos : s.Pos} {steps : List (SearchStep s)}
    (search : IsValidSearchFrom word pos steps) {before after : String} (splits : pos.Splits before after)
    (sofar : String) :
    ∃ out, (steps.foldl (replaceStep value s) sofar).toList = sofar.toList ++ out ∧
      Filled [(word, value)] after.toList out := by
  induction search generalizing before after sofar with
  | endPos =>
    obtain rfl := splits.eq_right s.splits_endPos
    exact ⟨[], by simp, by simpa using .nil⟩
  | @matched steps start stop found _ ih =>
    obtain ⟨t, rest, atStart, atStop⟩ := ForwardStringSearcher.isLongestMatchAt_iff_splits.mp found
    obtain rfl := splits.eq_right atStart
    obtain ⟨out, same, filled⟩ := ih atStop (sofar ++ value)
    refine ⟨value.toList ++ out, ?_, ?_⟩
    · rw [List.foldl_cons, replaceStep, same, String.toList_append, List.append_assoc]
    · rw [String.toList_append]
      exact .word List.mem_cons_self filled
  | @mismatched steps start stop less none _ ih =>
    obtain ⟨mid, -, cut, rfl⟩ := (splits.lt_iff_exists_eq_append stop.splits).mp less
    obtain ⟨ordered, skipped⟩ := String.Slice.copy_slice_eq_iff_splits.mpr ⟨before, _, splits, cut ▸ stop.splits⟩
    rw [String.Slice.slice_eq_slice!] at skipped
    obtain ⟨out, same, filled⟩ := ih stop.splits (sofar ++ mid)
    refine ⟨mid.toList ++ out, ?_, ?_⟩
    · rw [List.foldl_cons, replaceStep, skipped, same, String.toList_append, List.append_assoc]
    · rw [String.toList_append]
      have none := occurrences_append_of_not_begins (not_begins_between value splits cut none)
      exact (Filled.append_iff none).mpr ⟨out, rfl, filled⟩

theorem replace_filled (s value : String) {word : String} (nonempty : word ≠ "") :
    Filled [(word, value)] s.toList (s.replace word value).toList := by
  have lawful := ForwardStringSearcher.lawfulToForwardSearcherModel nonempty
  obtain ⟨out, same, filled⟩ := filled_of_search value (lawful.isValidSearchFrom_toList s.toSlice)
    (String.Slice.splits_startPos _) ""
  rw [replace_eq_foldl, same]
  simpa using filled

def Apart (pair other : String × String) : Prop :=
  ¬ pair.1.toList <+: other.1.toList ∧ ¬ other.1.toList <+: pair.1.toList

instance : Std.Symm Apart := ⟨fun _ _ apart => ⟨apart.2, apart.1⟩⟩

theorem Apart.append_ne {pair other : String × String} (apart : Apart pair other) (rest rest' : List Char) :
    pair.1.toList ++ rest ≠ other.1.toList ++ rest' := fun same =>
  (List.prefix_or_prefix_of_prefix ⟨rest, rfl⟩ ⟨rest', same.symm⟩).elim apart.1 apart.2

/-- Words of which each begins with its only opening brace, and none begins another. -/
structure Separate (given : List (String × String)) : Prop where
  opened : ∀ pair ∈ given, ∃ tail, pair.1.toList = '\x7b' :: tail ∧ '\x7b' ∉ tail
  apart : given.Pairwise Apart

namespace Separate

theorem append_left {given more : List (String × String)} (separate : Separate (given ++ more)) : Separate given :=
  ⟨fun pair member => separate.opened pair (List.mem_append_left _ member), (List.pairwise_append.mp separate.apart).1⟩

theorem append_right {given more : List (String × String)} (separate : Separate (given ++ more)) : Separate more :=
  ⟨fun pair member => separate.opened pair (List.mem_append_right _ member),
    (List.pairwise_append.mp separate.apart).2.1⟩

/-- At one place stands one word at most. -/
theorem eq_of_append_eq (separate : Separate given) {pair other : String × String} (member : pair ∈ given)
    (member' : other ∈ given) {rest rest' : List Char} (same : pair.1.toList ++ rest = other.1.toList ++ rest') :
    pair = other := by
  refine Decidable.byContradiction fun different => ?_
  exact (separate.apart.forall member member' different).append_ne rest rest' same

/-- Where one of the words stands, no word of the others does. -/
theorem not_begins {given more : List (String × String)} (separate : Separate (given ++ more)) {pair : String × String}
    (member : pair ∈ given) (rest : List Char) : ¬ Begins more (pair.1.toList ++ rest) := by
  rintro ⟨other, member', after, begins⟩
  exact ((List.pairwise_append.mp separate.apart).2.2 pair member other member').append_ne rest after begins.symm

theorem begins_cons_iff (separate : Separate given) {c : Char} {rest : List Char} : Begins given (c :: rest) ↔
    c = '\x7b' ∧ ∃ pair ∈ given, ∃ tail after,
      pair.1.toList = '\x7b' :: tail ∧ '\x7b' ∉ tail ∧ rest = tail ++ after := by
  constructor
  · rintro ⟨pair, member, after, begins⟩
    obtain ⟨tail, word, unbraced⟩ := separate.opened pair member
    rw [word, List.cons_append, List.cons.injEq] at begins
    exact ⟨begins.1.symm, pair, member, tail, after, word, unbraced, begins.2.symm⟩
  · rintro ⟨rfl, pair, member, tail, after, word, -, rfl⟩
    exact ⟨pair, member, after, by rw [word, List.cons_append]⟩

theorem occurrences_nil (separate : Separate given) : occurrences given [] = 0 := by
  have none : ¬ Begins given [] := by
    rintro ⟨pair, member, empty⟩
    obtain ⟨tail, word, -⟩ := separate.opened pair member
    simp [word] at empty
  simp [occurrences, none]

theorem occurrences_unbraced (separate : Separate given) {mid : List Char} (unbraced : '\x7b' ∉ mid)
    (rest : List Char) : occurrences given (mid ++ rest) = occurrences given rest := by
  refine occurrences_append_of_not_begins fun before after cut nonempty begins => ?_
  obtain ⟨c, after, rfl⟩ := List.exists_cons_of_ne_nil nonempty
  obtain rfl := (separate.begins_cons_iff.mp begins).1
  exact unbraced (by simp [cut])

/-- A word stands behind a part without opening braces, or does not stand there at all. -/
theorem word_behind (separate : Separate given) {pair : String × String} (member : pair ∈ given) {mid rest : List Char}
    (unbraced : '\x7b' ∉ mid) (there : pair.1.toList <:+: mid ++ rest) : pair.1.toList <:+: rest := by
  induction mid with
  | nil => exact there
  | cons c mid ih =>
    rw [List.mem_cons, not_or] at unbraced
    rcases List.infix_cons_iff.mp there with here | there
    · exact absurd (separate.begins_cons_iff.mp ⟨pair, member, here⟩).1.symm unbraced.1
    · exact ih unbraced.2 there

/-- No word of the others stands in one of the words. -/
theorem occurrences_word {given more : List (String × String)} (separate : Separate (given ++ more))
    {pair : String × String} (member : pair ∈ given) (rest : List Char) :
    occurrences more (pair.1.toList ++ rest) = occurrences more rest := by
  have here := separate.not_begins member rest
  obtain ⟨tail, word, unbraced⟩ := separate.append_left.opened pair member
  rw [word, List.cons_append] at here ⊢
  rw [occurrences_cons, if_neg here, separate.append_right.occurrences_unbraced unbraced, Nat.add_zero]

theorem filled_unbraced_iff (separate : Separate given) {mid rest text : List Char} (unbraced : '\x7b' ∉ mid) :
    Filled given (mid ++ rest) text ↔ ∃ out, text = mid ++ out ∧ Filled given rest out :=
  Filled.append_iff (separate.occurrences_unbraced unbraced rest)

theorem filled_nil_iff (separate : Separate given) {text : List Char} : Filled given [] text ↔ text = [] := by
  constructor
  · intro filled
    generalize whole : ([] : List Char) = start at filled
    cases filled with
    | nil => rfl
    | word member _ =>
      obtain ⟨tail, word, -⟩ := separate.opened _ member
      simp [word] at whole
    | literal _ _ => cases whole
  · rintro rfl
    exact .nil

theorem filled_word_iff (separate : Separate given) {word value : String} (member : (word, value) ∈ given)
    {rest text : List Char} : Filled given (word.toList ++ rest) text ↔
      ∃ out, text = value.toList ++ out ∧ Filled given rest out := by
  constructor
  · intro filled
    obtain ⟨tail, opened, -⟩ := separate.opened _ member
    rw [opened, List.cons_append, Filled.cons_iff, ← List.cons_append, ← opened] at filled
    rcases filled with ⟨pair, member', after, out, whole, rfl, filled⟩ | ⟨none, -⟩
    · obtain rfl := separate.eq_of_append_eq member member' whole
      obtain rfl := List.append_cancel_left whole
      exact ⟨out, rfl, filled⟩
    · exact absurd ⟨_, member, List.prefix_append _ _⟩ none
  · rintro ⟨out, rfl, filled⟩
    exact .word member filled

/-- What becomes of a text is determined. -/
theorem unique (separate : Separate given) {text out out' : List Char} (filled : Filled given text out)
    (filled' : Filled given text out') : out = out' := by
  induction filled generalizing out' with
  | nil => exact (separate.filled_nil_iff.mp filled').symm
  | word member _ ih =>
    obtain ⟨after, rfl, behind⟩ := (separate.filled_word_iff member).mp filled'
    rw [ih behind]
  | literal none _ ih =>
    obtain ⟨after, rfl, behind⟩ := (Filled.literal_iff none).mp filled'
    rw [ih behind]

end Separate

/-- Each word that is filled takes its brace away. -/
theorem Filled.count_add_occurrences {text out : List Char} (separate : Separate given) (filled : Filled given text out)
    (unbraced : ∀ pair ∈ given, '\x7b' ∉ pair.2.toList) :
    out.count '\x7b' + occurrences given text = text.count '\x7b' := by
  induction filled with
  | nil => simp [separate.occurrences_nil]
  | @word word value rest out member filled ih =>
    have begins : Begins given (word.toList ++ rest) := ⟨_, member, List.prefix_append ..⟩
    obtain ⟨tail, opened, unbracedTail⟩ := separate.opened _ member
    rw [opened, List.cons_append] at begins ⊢
    rw [occurrences_cons, if_pos begins, separate.occurrences_unbraced unbracedTail, List.count_append,
      List.count_eq_zero.mpr (unbraced _ member), List.count_cons_self, List.count_append,
      List.count_eq_zero.mpr unbracedTail]
    omega
  | @literal c rest out none filled ih =>
    rw [occurrences_cons, if_neg none, List.count_cons, List.count_cons]
    omega

/-- What is given for a word is there where the word was. -/
theorem Filled.contains_value {text out : List Char} (separate : Separate given) (filled : Filled given text out)
    {pair : String × String} (member : pair ∈ given) (there : pair.1.toList <:+: text) :
    pair.2.toList <:+: out := by
  induction filled with
  | nil =>
    obtain ⟨tail, opened, -⟩ := separate.opened pair member
    simp [opened] at there
  | @word word value rest out member' filled ih =>
    obtain ⟨tail, opened, unbraced⟩ := separate.opened _ member'
    rw [opened, List.cons_append, List.infix_cons_iff, ← List.cons_append, ← opened] at there
    rcases there with ⟨after, here⟩ | later
    · obtain rfl := separate.eq_of_append_eq member member' here
      exact (List.prefix_append _ _).isInfix
    · exact (ih (separate.word_behind member unbraced later)).trans (List.suffix_append _ _).isInfix
  | literal none _ ih =>
    rcases List.infix_cons_iff.mp there with here | there
    · exact absurd ⟨pair, member, here⟩ none
    · exact List.infix_cons (ih there)

/-- What is out of reach of the values was there before. -/
theorem Filled.exists_of_append {part out text : List Char} (filled : Filled given text (part ++ out))
    (apart : ∀ pair ∈ given, pair.2.toList ≠ [] ∧ ∀ c ∈ pair.2.toList, c ∉ part) :
    ∃ rest, text = part ++ rest ∧ Filled given rest out := by
  induction part generalizing text with
  | nil => exact ⟨text, rfl, filled⟩
  | cons c part ih =>
    generalize whole : c :: part ++ out = made at filled
    cases filled with
    | nil => cases whole
    | @word word value rest out' member _ =>
      obtain ⟨nonempty, others⟩ := apart _ member
      obtain ⟨d, value', same⟩ := List.exists_cons_of_ne_nil nonempty
      rw [same] at whole others
      obtain rfl := (List.cons.inj whole).1
      exact absurd List.mem_cons_self (others c List.mem_cons_self)
    | @literal d rest out' _ filled =>
      cases whole
      obtain ⟨rest, rfl, behind⟩ := ih filled fun pair member =>
        ⟨(apart pair member).1, fun c among in_ => (apart pair member).2 c among (List.mem_cons_of_mem _ in_)⟩
      exact ⟨rest, rfl, behind⟩

section
variable {first second : List (String × String)} (separate : Separate (first ++ second))
include separate

/-- A word that is not filled in the first pass is there for the second. -/
theorem Filled.begins {c : Char} {rest out : List Char} (filled : Filled first rest out)
    (begins : Begins second (c :: rest)) : Begins second (c :: out) := by
  obtain ⟨rfl, pair, member, tail, after, word, unbraced, rfl⟩ := separate.append_right.begins_cons_iff.mp begins
  obtain ⟨out, rfl, -⟩ := (separate.append_left.filled_unbraced_iff unbraced).mp filled
  exact separate.append_right.begins_cons_iff.mpr ⟨rfl, pair, member, tail, out, word, unbraced, rfl⟩

theorem Filled.occurrences_le {text out : List Char} (filled : Filled first text out) :
    occurrences second text ≤ occurrences second out := by
  induction filled with
  | nil => exact Nat.le_refl _
  | @word word value rest out member _ ih =>
    rw [separate.occurrences_word member]
    exact ih.trans (occurrences_le_append second value.toList out)
  | @literal c rest out none filled ih =>
    rw [occurrences_cons, occurrences_cons]
    by_cases begins : Begins second (c :: rest)
    · rw [if_pos begins, if_pos (filled.begins separate begins)]
      omega
    · rw [if_neg begins]
      omega

/-- If the first pass makes no word that the second one fills, both come to one pass. -/
theorem Filled.trans_of_occurrences_le {text mid out : List Char} (filled : Filled first text mid)
    (filled' : Filled second mid out) (none : occurrences second mid ≤ occurrences second text) :
    Filled (first ++ second) text out := by
  induction filled generalizing out with
  | nil =>
    obtain rfl := separate.append_right.filled_nil_iff.mp filled'
    exact .nil
  | @word word value rest mid member filled ih =>
    rw [separate.occurrences_word member] at none
    have grows := filled.occurrences_le separate
    have more := occurrences_le_append second value.toList mid
    obtain ⟨out, rfl, behind⟩ := (Filled.append_iff (by omega)).mp filled'
    exact .word (List.mem_append_left _ member) (ih behind (by omega))
  | @literal c rest mid noFirst filled ih =>
    have grows := filled.occurrences_le separate
    have kept := filled.begins separate (c := c)
    rw [occurrences_cons, occurrences_cons] at none
    by_cases begins : Begins second (c :: rest)
    · rw [if_pos begins, if_pos (kept begins)] at none
      obtain ⟨rfl, pair, member, tail, after, word, unbraced, rfl⟩ := separate.append_right.begins_cons_iff.mp begins
      obtain ⟨mid, rfl, -⟩ := (separate.append_left.filled_unbraced_iff unbraced).mp filled
      rw [← List.cons_append, ← word] at filled' ⊢
      obtain ⟨out, rfl, behind⟩ := (separate.append_right.filled_word_iff member).mp filled'
      -- The induction hypothesis is about what follows the brace, so the rest of the word is put back in front.
      have whole := ih ((separate.append_right.filled_unbraced_iff unbraced).mpr ⟨out, rfl, behind⟩) (by omega)
      obtain ⟨_, same, behind⟩ := (separate.filled_unbraced_iff unbraced).mp whole
      obtain rfl := List.append_cancel_left same
      exact .word (List.mem_append_right _ member) behind
    · have noSecond : ¬ Begins second (c :: mid) := fun new => by
        rw [if_pos new, if_neg begins] at none
        omega
      rw [if_neg begins, if_neg noSecond] at none
      obtain ⟨out, rfl, behind⟩ := (Filled.literal_iff noSecond).mp filled'
      refine .literal ?_ (ih behind (by omega))
      rw [begins_append_iff]
      exact not_or.mpr ⟨noFirst, begins⟩

/-- Values that share no character with the words of the second pass make none of them. -/
theorem Filled.occurrences_eq {text out : List Char} (filled : Filled first text out)
    (apart : ∀ pair ∈ first, pair.2.toList ≠ [] ∧ ∀ other ∈ second, ∀ c ∈ pair.2.toList, c ∉ other.1.toList)
    (unbraced : ∀ pair ∈ first, '\x7b' ∉ pair.2.toList) : occurrences second out = occurrences second text := by
  induction filled with
  | nil => rfl
  | @word word value rest out member _ ih =>
    rw [separate.occurrences_word member, separate.append_right.occurrences_unbraced (unbraced _ member), ih]
  | @literal c rest out none filled ih =>
    have same : Begins second (c :: out) ↔ Begins second (c :: rest) := by
      refine ⟨fun begins => ?_, filled.begins separate⟩
      obtain ⟨rfl, pair, member, tail, after, word, unbracedTail, rfl⟩ :=
        separate.append_right.begins_cons_iff.mp begins
      obtain ⟨rest, rfl, -⟩ := filled.exists_of_append fun other member' =>
        ⟨(apart other member').1, fun c among in_ =>
          (apart other member').2 pair member c among (word ▸ List.mem_cons_of_mem _ in_)⟩
      exact separate.append_right.begins_cons_iff.mpr ⟨rfl, pair, member, tail, rest, word, unbracedTail, rfl⟩
    rw [occurrences_cons, occurrences_cons, ih]
    simp only [same]

/-- Braces are counted of a text filled in one pass, and of the same text after the first of two. -/
theorem Filled.count_add_occurrences_of_both {text mid out : List Char} (filled : Filled first text mid)
    (whole : Filled (first ++ second) text out) (unbraced : ∀ pair ∈ second, '\x7b' ∉ pair.2.toList) :
    out.count '\x7b' + occurrences second text = mid.count '\x7b' := by
  induction filled generalizing out with
  | nil =>
    obtain rfl := separate.filled_nil_iff.mp whole
    simp [separate.append_right.occurrences_nil]
  | @word word value rest mid member _ ih =>
    obtain ⟨out, rfl, behind⟩ := (separate.filled_word_iff (List.mem_append_left _ member)).mp whole
    rw [separate.occurrences_word member, List.count_append, List.count_append, Nat.add_assoc, ih behind]
  | @literal c rest mid noFirst _ ih =>
    by_cases begins : Begins second (c :: rest)
    · rw [occurrences_cons, if_pos begins]
      obtain ⟨rfl, pair, member, tail, after, word, unbracedTail, rfl⟩ :=
        separate.append_right.begins_cons_iff.mp begins
      rw [← List.cons_append, ← word] at whole
      obtain ⟨out, rfl, behind⟩ := (separate.filled_word_iff (List.mem_append_right _ member)).mp whole
      have rest := ih ((separate.filled_unbraced_iff unbracedTail).mpr ⟨out, rfl, behind⟩)
      rw [List.count_append, List.count_eq_zero.mpr unbracedTail] at rest
      rw [List.count_append, List.count_eq_zero.mpr (unbraced pair member), List.count_cons_self]
      omega
    · rw [occurrences_cons, if_neg begins]
      have none : ¬ Begins (first ++ second) (c :: rest) := by
        rw [begins_append_iff]
        exact not_or.mpr ⟨noFirst, begins⟩
      obtain ⟨out, rfl, behind⟩ := (Filled.literal_iff none).mp whole
      rw [List.count_cons, List.count_cons, Nat.add_right_comm, Nat.add_zero, ih behind]

/-- Two passes come to one exactly where the first one makes no word that the second one fills. -/
theorem Filled.trans_iff {text mid out : List Char} (filled : Filled first text mid) (filled' : Filled second mid out)
    (unbraced : ∀ pair ∈ second, '\x7b' ∉ pair.2.toList) :
    Filled (first ++ second) text out ↔ occurrences second mid = occurrences second text := by
  constructor
  · intro whole
    have twice := filled'.count_add_occurrences separate.append_right unbraced
    have once := filled.count_add_occurrences_of_both separate whole unbraced
    omega
  · exact fun same => filled.trans_of_occurrences_le separate filled' same.le

end

end TestEngine.Text

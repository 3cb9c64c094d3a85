import TestEngine.Proofs.Reading
import TestEngine.Proofs.Spellings

/-! Which texts are read as identifiers: parts joined by slashes, each a kind and a value in brackets, with an escape
at every percent sign. An escape is written with two hexadecimal digits, but what is read is laxer: a plus may stand in
place of the first, and one digit is enough where the kind or the value ends. -/
namespace TestEngine

namespace Hex

/-- The digits from `0` to `9`, and the letters from `A` to `F` of either case. -/
def IsDigit (c : Char) : Prop := '0' ≤ c ∧ c ≤ '9' ∨ 'A' ≤ c ∧ c ≤ 'F' ∨ 'a' ≤ c ∧ c ≤ 'f'

instance (c : Char) : Decidable (IsDigit c) := inferInstanceAs (Decidable (_ ∨ _))

theorem value?_isSome_iff {c : Char} : (value? c).isSome = true ↔ IsDigit c := by
  unfold value? IsDigit
  split
  · simp [*]
  · split
    · simp [*]
    · split <;> simp [*]

theorem value?_lt {c : Char} {n : Nat} (value : value? c = some n) : n < 16 := by
  have bound (low : Char) {high : Char} (upper : c ≤ high) : c.toNat - low.toNat ≤ high.toNat - low.toNat :=
    Nat.sub_le_sub_right (Char.le_def.mp upper) _
  unfold value? at value
  split at value
  · rename_i digit
    cases value
    exact Nat.lt_of_le_of_lt (bound '0' digit.2) (by decide)
  · split at value
    · rename_i letter
      cases value
      exact Nat.lt_of_le_of_lt (Nat.add_le_add_right (bound 'A' letter.2) 10) (by decide)
    · split at value
      · rename_i letter
        cases value
        exact Nat.lt_of_le_of_lt (Nat.add_le_add_right (bound 'a' letter.2) 10) (by decide)
      · contradiction

theorem not_isDigit_plus : ¬ IsDigit '+' := by decide

theorem digits?_single (a : Char) : digits? 0 [a] = value? a := by
  cases value : value? a <;> simp [digits?, value]

/-- A plus is passed over only where something follows it. -/
theorem number?_unsigned {a : Char} {cs : List Char} (unsigned : a = '+' → cs = []) :
    number? (a :: cs) = digits? 0 (a :: cs) := by
  unfold number?
  split
  · contradiction
  · rename_i same
    cases same
    cases unsigned rfl
  · rename_i same
    cases same
    rfl

theorem number?_single (a : Char) : number? [a] = value? a :=
  (number?_unsigned fun _ => rfl).trans (digits?_single a)

theorem number?_signed (b : Char) : number? ['+', b] = value? b := digits?_single b

theorem number?_pair {a : Char} (unsigned : a ≠ '+') (b : Char) :
    number? [a, b] = (value? a).bind fun m => (value? b).map (m * 16 + ·) := by
  rw [number?_unsigned fun sign => absurd sign unsigned]
  cases first : value? a with
  | none => simp [digits?, first]
  | some m => cases second : value? b <;> simp [digits?, first, second]

end Hex

namespace UniqueId

theorem escaped?_isSome_iff {digits : List Char} (small : ∀ n, Hex.number? digits = some n → n < 256) :
    (escaped? digits).isSome = true ↔ (Hex.number? digits).isSome = true := by
  unfold escaped?
  cases number : Hex.number? digits with
  | none => simp
  | some n =>
    have valid : n.isValidChar := .inl (Nat.lt_trans (small n number) (by decide))
    simp [valid]

/-- At the end one digit makes an escape. -/
theorem escaped?_single_isSome_iff {a : Char} : (escaped? [a]).isSome = true ↔ Hex.IsDigit a := by
  rw [escaped?_isSome_iff, Hex.number?_single, Hex.value?_isSome_iff]
  intro n number
  rw [Hex.number?_single] at number
  exact Nat.lt_trans (Hex.value?_lt number) (by decide)

/-- Two digits make an escape, and so do a plus and a digit. -/
theorem escaped?_pair_isSome_iff {a b : Char} :
    (escaped? [a, b]).isSome = true ↔ (Hex.IsDigit a ∨ a = '+') ∧ Hex.IsDigit b := by
  by_cases signed : a = '+'
  · subst signed
    rw [escaped?_isSome_iff, Hex.number?_signed, Hex.value?_isSome_iff]
    · simp
    · intro n number
      rw [Hex.number?_signed] at number
      exact Nat.lt_trans (Hex.value?_lt number) (by decide)
  · rw [escaped?_isSome_iff, Hex.number?_pair signed, ← Hex.value?_isSome_iff, ← Hex.value?_isSome_iff]
    · cases Hex.value? a <;> cases Hex.value? b <;> simp [signed]
    · intro n number
      rw [Hex.number?_pair signed] at number
      obtain ⟨m, first, second⟩ := Option.bind_eq_some_iff.mp number
      obtain ⟨k, last, rfl⟩ := Option.map_eq_some_iff.mp second
      have := Hex.value?_lt first
      have := Hex.value?_lt last
      omega

def TwoDigits (rest : List Char) : Prop := ∃ a b more, rest = a :: b :: more ∧ Hex.IsDigit a ∧ Hex.IsDigit b

/-- Only one digit follows the percent sign, behind a plus or at the end. -/
def OneDigit (rest : List Char) : Prop :=
  (∃ a more, rest = '+' :: a :: more ∧ Hex.IsDigit a) ∨ ∃ a, rest = [a] ∧ Hex.IsDigit a

/-- What follows a percent sign where an escape is read. -/
def Legible (rest : List Char) : Prop := TwoDigits rest ∨ OneDigit rest

/-- What follows each percent sign is as `p` says. -/
def Escapes (p : List Char → Prop) (cs : List Char) : Prop := ∀ rest, '%' :: rest <:+ cs → p rest

theorem escapes_cons {p : List Char → Prop} {c : Char} {cs : List Char} :
    Escapes p (c :: cs) ↔ (c = '%' → p cs) ∧ Escapes p cs := by
  simp only [Escapes, List.suffix_cons_iff, List.cons.injEq]
  constructor
  · intro each
    exact ⟨fun percent => each cs (.inl ⟨percent.symm, rfl⟩), fun rest within => each rest (.inr within)⟩
  · rintro ⟨here, within⟩ rest (⟨rfl, rfl⟩ | later)
    · exact here rfl
    · exact within rest later

theorem escapes_nil {p : List Char → Prop} : Escapes p [] := by
  intro rest within
  simp at within

theorem legible_pair {a b : Char} {more : List Char} :
    Legible (a :: b :: more) ↔ (Hex.IsDigit a ∨ a = '+') ∧ Hex.IsDigit b := by
  constructor
  · rintro (⟨x, y, rest, same, first, second⟩ | ⟨y, rest, same, second⟩ | ⟨y, same, second⟩)
    · cases same
      exact ⟨.inl first, second⟩
    · cases same
      exact ⟨.inr rfl, second⟩
    · cases same
  · rintro ⟨first | rfl, second⟩
    · exact .inl ⟨a, b, more, rfl, first, second⟩
    · exact .inr (.inl ⟨b, more, rfl, second⟩)

theorem legible_single {a : Char} : Legible [a] ↔ Hex.IsDigit a := by
  constructor
  · rintro (⟨x, y, rest, same, -⟩ | ⟨y, rest, same, -⟩ | ⟨y, same, digit⟩)
    · cases same
    · cases same
    · cases same
      exact digit
  · intro digit
    exact .inr (.inr ⟨a, rfl, digit⟩)

theorem not_legible_nil : ¬ Legible [] := by
  rintro (⟨x, y, rest, same, -⟩ | ⟨y, rest, same, -⟩ | ⟨y, same, -⟩) <;> cases same

theorem ne_percent_of_isDigit {c : Char} (digit : Hex.IsDigit c) : c ≠ '%' := by
  rintro rfl
  revert digit
  decide

/-- An escape is read whole, so that none begins within it. -/
theorem escapes_pair {a b : Char} {cs : List Char} :
    Escapes Legible ('%' :: a :: b :: cs) ↔ (escaped? [a, b]).isSome = true ∧ Escapes Legible cs := by
  rw [escapes_cons, escapes_cons, escapes_cons, legible_pair, escaped?_pair_isSome_iff]
  constructor
  · rintro ⟨here, _, _, later⟩
    exact ⟨here rfl, later⟩
  · rintro ⟨⟨first, second⟩, later⟩
    have apart : a ≠ '%' := by
      rcases first with digit | rfl
      · exact ne_percent_of_isDigit digit
      · decide
    exact ⟨fun _ => ⟨first, second⟩, fun same => absurd same apart,
      fun same => absurd same (ne_percent_of_isDigit second), later⟩

theorem escapes_single {a : Char} : Escapes Legible ['%', a] ↔ (escaped? [a]).isSome = true := by
  rw [escapes_cons, escapes_cons, legible_single, escaped?_single_isSome_iff]
  constructor
  · rintro ⟨here, _⟩
    exact here rfl
  · intro digit
    exact ⟨fun _ => digit, fun same => absurd same (ne_percent_of_isDigit digit), escapes_nil⟩

/-- Text is decoded if and only if there is an escape at each percent sign in it. -/
theorem decode_isSome_iff (cs : List Char) : (decode cs).isSome = true ↔ Escapes Legible cs := by
  fun_induction decode cs with
  | case1 => simp [escapes_nil]
  | case2 a b cs c read decoded escape ih =>
    rw [escapes_pair, ← ih, escape, decoded]
    simp
  | case3 a b cs refused ih =>
    rw [escapes_pair, ← ih]
    simp only [Option.isSome_none, Bool.false_eq_true, false_iff, not_and, Option.isSome_iff_exists]
    rintro ⟨c, escape⟩ ⟨read, decoded⟩
    exact refused c read escape decoded
  | case4 a => rw [escapes_single, Option.isSome_map]
  | case5 => simp [escapes_cons, not_legible_nil]
  | case6 c cs plain ih => rw [Option.isSome_map, ih, escapes_cons, and_iff_right fun percent => absurd percent plain]

theorem unbracket_eq_some_iff {part inner : List Char} :
    unbracket part = some inner ↔ part = '[' :: (inner ++ [']']) := by
  constructor
  · intro enclosed
    unfold unbracket at enclosed
    split at enclosed
    · rename_i cs
      split at enclosed
      · rename_i last
        cases enclosed
        obtain ⟨shorter, rfl⟩ := List.getLast?_eq_some_iff.mp last
        simp
      · contradiction
    · contradiction
  · rintro rfl
    exact unbracket_enclosed inner

/-- A kind and a value in brackets, where what follows each percent sign is as `p` says. -/
def IsPart (p : List Char → Prop) (part : List Char) : Prop :=
  ∃ kind value, part = '[' :: (kind ++ ':' :: value ++ [']']) ∧ kind ≠ [] ∧ '/' ∉ kind ∧ ':' ∉ kind ∧ '/' ∉ value ∧
    Escapes p kind ∧ Escapes p value

def Spelled (p : List Char → Prop) (text : List Char) : Prop :=
  ∃ parts ≠ [], text = ['/'].intercalate parts ∧ ∀ part ∈ parts, IsPart p part

theorem parseSegment?_isSome_iff {part : List Char} (whole : '/' ∉ part) :
    (parseSegment? part).isSome = true ↔ IsPart Legible part := by
  constructor
  · intro read
    obtain ⟨s, parsed⟩ := Option.isSome_iff_exists.mp read
    simp only [parseSegment?, Option.bind_eq_bind, Option.bind_eq_some_iff] at parsed
    obtain ⟨inner, enclosed, ⟨kind, value⟩, cut, parsed⟩ := parsed
    obtain rfl := unbracket_eq_some_iff.mp enclosed
    obtain ⟨single, rfl⟩ := Text.splitOnce_eq_some_iff.mp cut
    split at parsed
    · contradiction
    · rename_i named
      simp only [Option.bind_eq_some_iff] at parsed
      obtain ⟨k, first, v, second, -⟩ := parsed
      have apart : '/' ∉ kind ∧ '/' ∉ value := by simpa using whole
      refine ⟨kind, value, rfl, by simpa using named, apart.1, single, apart.2, ?_, ?_⟩
      · rw [← decode_isSome_iff, first, Option.isSome_some]
      · rw [← decode_isSome_iff, second, Option.isSome_some]
  · rintro ⟨kind, value, rfl, named, -, single, -, first, second⟩
    obtain ⟨k, first⟩ := Option.isSome_iff_exists.mp ((decode_isSome_iff kind).mpr first)
    obtain ⟨v, second⟩ := Option.isSome_iff_exists.mp ((decode_isSome_iff value).mpr second)
    have named : kind.isEmpty = false := by simpa using named
    simp only [parseSegment?, unbracket_enclosed, Text.splitOnce_append single, Option.bind_eq_bind, Option.bind_some,
      named, first, second, Option.pure_def, Bool.false_eq_true, if_false, Option.isSome_some]

/-- The empty text needs no case of its own: its only part is not in brackets. -/
theorem parse?_eq (text : String) :
    parse? text = ((Text.split '/' text.toList).mapM parseSegment?).map UniqueId.mk := by
  unfold parse?
  split
  · rename_i empty
    obtain rfl : text = "" := by simpa using empty
    rfl
  · rfl

/-- The parts that a text is joined from are the pieces between its slashes. -/
theorem spelled_iff {p : List Char → Prop} {text : List Char} :
    Spelled p text ↔ ∀ part ∈ Text.split '/' text, IsPart p part := by
  rw [Text.split_eq_splitOn]
  constructor
  · rintro ⟨parts, something, rfl, each⟩
    have whole : ∀ part ∈ parts, '/' ∉ part := by
      intro part member
      obtain ⟨kind, value, rfl, -, first, -, second, -⟩ := each part member
      simp [first, second]
    rwa [List.splitOn_intercalate '/' whole something]
  · intro each
    exact ⟨_, List.splitOn_ne_nil '/' text, (List.intercalate_splitOn '/').symm, each⟩

theorem parse?_isSome_iff {text : String} : (parse? text).isSome = true ↔ Spelled Legible text.toList := by
  rw [parse?_eq, Option.isSome_map, Text.mapM_isSome_iff, spelled_iff]
  exact forall₂_congr fun part member => parseSegment?_isSome_iff (Text.not_mem_of_mem_split member)

theorem Escapes.and {p q : List Char → Prop} {cs : List Char} :
    Escapes (fun rest => p rest ∧ q rest) cs ↔ Escapes p cs ∧ Escapes q cs := forall₂_and

/-- The kind of a part ends at the first colon. -/
theorem isPart_iff {p : List Char → Prop} {kind value : List Char} (single : ':' ∉ kind) :
    IsPart p ('[' :: (kind ++ ':' :: value ++ [']'])) ↔
      kind ≠ [] ∧ '/' ∉ kind ∧ '/' ∉ value ∧ Escapes p kind ∧ Escapes p value := by
  constructor
  · rintro ⟨kind', value', same, named, first, single', second, escapes, escapes'⟩
    have inner : kind ++ ':' :: value = kind' ++ ':' :: value' := List.append_cancel_right (List.cons.inj same).2
    have cut := Text.splitOnce_eq_some_iff.mpr ⟨single', inner⟩
    rw [Text.splitOnce_append single] at cut
    cases cut
    exact ⟨named, first, second, escapes, escapes'⟩
  · rintro ⟨named, first, second, escapes, escapes'⟩
    exact ⟨kind, value, rfl, named, first, single, second, escapes, escapes'⟩

theorem isPart_and {p q : List Char → Prop} {part : List Char} :
    IsPart (fun rest => p rest ∧ q rest) part ↔ IsPart p part ∧ IsPart q part := by
  constructor
  · rintro ⟨kind, value, rfl, named, first, single, second, escapes, escapes'⟩
    rw [isPart_iff single, isPart_iff single]
    rw [Escapes.and] at escapes escapes'
    exact ⟨⟨named, first, second, escapes.1, escapes'.1⟩, named, first, second, escapes.2, escapes'.2⟩
  · rintro ⟨⟨kind, value, rfl, named, first, single, second, left, left'⟩, other⟩
    obtain ⟨-, -, -, right, right'⟩ := (isPart_iff single).mp other
    rw [isPart_iff single, Escapes.and, Escapes.and]
    exact ⟨named, first, second, ⟨left, right⟩, left', right'⟩

theorem spelled_and {p q : List Char → Prop} {text : List Char} :
    Spelled (fun rest => p rest ∧ q rest) text ↔ Spelled p text ∧ Spelled q text := by
  simp only [spelled_iff, isPart_and, forall₂_and]

theorem TwoDigits.not_oneDigit {rest : List Char} (two : TwoDigits rest) : ¬ OneDigit rest := by
  obtain ⟨a, b, more, rfl, first, -⟩ := two
  rintro (⟨_, _, same, -⟩ | ⟨_, same, -⟩)
  · cases same
    exact Hex.not_isDigit_plus first
  · cases same

theorem legible_and_not_oneDigit {rest : List Char} : Legible rest ∧ ¬ OneDigit rest ↔ TwoDigits rest := by
  constructor
  · rintro ⟨two | one, other⟩
    · exact two
    · exact absurd one other
  · intro two
    exact ⟨.inl two, two.not_oneDigit⟩

/-- A text is read as an identifier if and only if it is made of parts in which two digits follow each percent sign, or
only one behind a plus or at the end of a kind or a value. Any other text is refused as it stands. So where no percent
sign is followed by only one digit, two digits are what is asked for. -/
theorem read_iff_spelled (text : String) :
    ((∃ id, parse text = .ok id) ↔ Spelled (fun rest => TwoDigits rest ∨ OneDigit rest) text.toList) ∧
    ((¬ ∃ id, parse text = .ok id) ↔ parse text = .error (.invalidUniqueId text)) ∧
    ((∃ id, parse text = .ok id) ∧ Spelled (fun rest => ¬ OneDigit rest) text.toList ↔
      Spelled TwoDigits text.toList) := by
  have read : (∃ id, parse text = .ok id) ↔ Spelled Legible text.toList := by
    rw [← parse?_isSome_iff, Option.isSome_iff_exists]
    exact exists_congr fun id => parse_eq_ok_iff
  refine ⟨read, ?_, ?_⟩
  · unfold parse
    cases parse? text <;> simp
  · rw [read, ← spelled_and]
    simp only [legible_and_not_oneDigit]

/-- A plus in place of a digit, and a digit that is missing: the text is read, although its escapes are not written
so. -/
theorem read_iff_spelled_lax :
    parse "[a:%+a]/[%9:b]" = .ok ((root "a" "\n").append "\t" "b") ∧ ¬ Spelled TwoDigits "[a:%+a]/[%9:b]".toList ∧
    ¬ Spelled (fun rest => ¬ OneDigit rest) "[a:%+a]/[%9:b]".toList := by
  obtain ⟨-, -, spelled⟩ := read_iff_spelled "[a:%+a]/[%9:b]"
  have read : parse "[a:%+a]/[%9:b]" = .ok ((root "a" "\n").append "\t" "b") :=
    parse_eq_ok_iff.mpr (by decide +kernel)
  have signed : ¬ Spelled TwoDigits "[a:%+a]/[%9:b]".toList := by
    rw [spelled_iff]
    intro each
    have part : IsPart TwoDigits ('[' :: (['a'] ++ ':' :: ['%', '+', 'a'] ++ [']'])) := each _ (by decide)
    obtain ⟨-, -, -, -, escapes⟩ := (isPart_iff (by decide)).mp part
    obtain ⟨_, _, _, same, digit, -⟩ := (escapes_cons.mp escapes).1 rfl
    cases same
    exact Hex.not_isDigit_plus digit
  exact ⟨read, signed, fun whole => signed (spelled.mp ⟨⟨_, read⟩, whole⟩)⟩

end UniqueId
end TestEngine

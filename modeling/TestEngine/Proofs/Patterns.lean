import Mathlib.Data.List.Forall2
import TestEngine.DisplayName
import TestEngine.Proofs.Reading

/-! Names made from patterns in one pass. Where a pattern is cut so that no placeholder is cut, its two parts are named
apart; a part without placeholders stays as it is; and what is put in for a placeholder depends on its key alone, so
that it is never read as a pattern itself. -/
namespace TestEngine

namespace Text

theorem intercalate_empty_cons (text : String) (rest : List String) :
    "".intercalate (text :: rest) = text ++ "".intercalate rest := by
  cases rest with
  | nil => simp
  | cons next rest => rw [String.intercalate_cons_of_ne_nil (by simp), String.append_empty]

theorem intercalate_empty_append (texts rest : List String) :
    "".intercalate (texts ++ rest) = "".intercalate texts ++ "".intercalate rest := by
  induction texts with
  | nil => simp
  | cons text texts ih => rw [List.cons_append, intercalate_empty_cons, ih, intercalate_empty_cons, String.append_assoc]

theorem intercalate_empty_singleton (cs : List Char) : "".intercalate (cs.map String.singleton) = String.ofList cs := by
  induction cs with
  | nil => rfl
  | cons c cs ih =>
    rw [List.map_cons, intercalate_empty_cons, ih, String.singleton_eq_ofList, ← String.ofList_append,
      List.singleton_append]

end Text

namespace DisplayName

/-- Letters only, or digits only, and at least one. -/
def IsKey (key : List Char) : Prop :=
  key ≠ [] ∧ ((∀ c ∈ key, isLetter c = true) ∨ ∀ c ∈ key, isDigit c = true)

/-- No key contains a character that is neither a letter nor a digit. -/
theorem IsKey.not_mem {key : List Char} (isKey : IsKey key) {c : Char}
    (other : isLetter c = false ∧ isDigit c = false) : c ∉ key := by
  intro mem
  rcases isKey.2 with letters | digits
  · simp [letters c mem] at other
  · simp [digits c mem] at other

theorem IsKey.not_mem_close {key : List Char} (isKey : IsKey key) : '\x7d' ∉ key := isKey.not_mem (by decide)

/-- The closing brace tells where a key ends. -/
theorem IsKey.unique {key key' after after' : List Char} (isKey : IsKey key) (isKey' : IsKey key')
    (same : key ++ '\x7d' :: after = key' ++ '\x7d' :: after') : key = key' ∧ after = after' := by
  have nothing {mid : List Char} {after after' : List Char} (closed : '\x7d' ∉ mid)
      (same : '\x7d' :: after = mid ++ '\x7d' :: after') : mid = [] := by
    cases mid with
    | nil => rfl
    | cons c mid =>
      cases (List.cons.inj same).1
      exact absurd List.mem_cons_self closed
  rcases List.append_eq_append_iff.mp same with ⟨mid, rfl, rest⟩ | ⟨mid, rfl, rest⟩
  · obtain rfl := nothing (fun mem => isKey'.not_mem_close (List.mem_append_right _ mem)) rest
    simpa using rest
  · obtain rfl := nothing (fun mem => isKey.not_mem_close (List.mem_append_right _ mem)) rest
    simpa using rest.symm

theorem isKey_of_key? {cs key after : List Char} (read : key? cs = some (key, after)) :
    IsKey key ∧ cs = key ++ '\x7d' :: after := by
  have whole (p : Char → Bool) : cs.takeWhile p ++ cs.dropWhile p = cs := List.takeWhile_append_dropWhile
  have letters := whole isLetter
  have digits := whole isDigit
  have allLetters : ∀ c ∈ cs.takeWhile isLetter, isLetter c = true := fun _ => List.mem_takeWhile_imp
  have allDigits : ∀ c ∈ cs.takeWhile isDigit, isDigit c = true := fun _ => List.mem_takeWhile_imp
  simp only [key?] at read
  unfold IsKey
  grind

theorem key?_closed {key : List Char} (isKey : IsKey key) (after : List Char) :
    key? (key ++ '\x7d' :: after) ≠ none := by
  have span {p : Char → Bool} (each : ∀ c ∈ key, p c = true) (closes : p '\x7d' = false) :
      (key ++ '\x7d' :: after).takeWhile p = key ∧ (key ++ '\x7d' :: after).dropWhile p = '\x7d' :: after := by
    rw [List.takeWhile_append_of_pos each, List.dropWhile_append_of_pos each]
    simp [closes]
  obtain ⟨something, letters | digits⟩ := isKey
  · obtain ⟨taken, dropped⟩ := span letters (by decide)
    obtain ⟨c, cs, rfl⟩ := List.exists_cons_of_ne_nil something
    simp only [key?, taken, dropped]
    simp
  · obtain ⟨taken, dropped⟩ := span digits (by decide)
    obtain ⟨c, cs, rfl⟩ := List.exists_cons_of_ne_nil something
    simp only [key?, taken, dropped]
    split <;> simp

/-- A key is read exactly where one stands before a closing brace. -/
theorem key?_eq_some_iff {cs key after : List Char} :
    key? cs = some (key, after) ↔ IsKey key ∧ cs = key ++ '\x7d' :: after := by
  constructor
  · exact isKey_of_key?
  · rintro ⟨isKey, rfl⟩
    obtain ⟨⟨key', after'⟩, read⟩ := Option.ne_none_iff_exists'.mp (key?_closed isKey after)
    obtain ⟨isKey', same⟩ := isKey_of_key? read
    obtain ⟨rfl, rfl⟩ := isKey.unique isKey' same
    exact read

theorem pieces_nil : pieces [] = [] := by
  rw [pieces]

theorem pieces_literal {c : Char} (other : c ≠ '\x7b') (cs : List Char) :
    pieces (c :: cs) = .literal c :: pieces cs := by
  rw [pieces, if_neg other]

theorem pieces_placeholder {key : List Char} (isKey : IsKey key) (after : List Char) :
    pieces ('\x7b' :: (key ++ '\x7d' :: after)) = .placeholder key :: pieces after := by
  rw [pieces, if_pos rfl]
  split
  · rename_i found
    rw [key?_eq_some_iff.mpr ⟨isKey, rfl⟩] at found
    cases found
    rfl
  · rename_i unread
    rw [key?_eq_some_iff.mpr ⟨isKey, rfl⟩] at unread
    contradiction

theorem pieces_open {cs : List Char} (unread : key? cs = none) :
    pieces ('\x7b' :: cs) = .literal '\x7b' :: pieces cs := by
  rw [pieces, if_pos rfl]
  split
  · rename_i found
    rw [unread] at found
    contradiction
  · rfl

/-- Where `p` ends or `q` begins with a brace, or either is empty, no placeholder reaches from `p` into `q`. -/
def Seam (p q : List Char) : Prop := p = [] ∨ p.getLast? = some '\x7d' ∨ q = [] ∨ q.head? = some '\x7b'

/-- No key reaches from one side of a seam to the other. -/
theorem not_isKey_across {cs after : List Char} (mid : List Char)
    (seam : Seam ('\x7b' :: cs) (mid ++ '\x7d' :: after)) : ¬ IsKey (cs ++ mid) := by
  intro isKey
  rcases seam with nothing | last | nothing | first
  · contradiction
  · cases cs with
    | nil => contradiction
    | cons c cs =>
      have closes : '\x7d' ∈ c :: cs := List.mem_of_getLast? (by simpa [List.getLast?_cons] using last)
      exact isKey.not_mem_close (List.mem_append_left _ closes)
  · simp at nothing
  · cases mid with
    | nil => simp at first
    | cons c mid =>
      cases first
      exact isKey.not_mem (by decide) (List.mem_append_right _ List.mem_cons_self)

/-- What is opened before a seam is not closed behind it. -/
theorem key?_append_none {cs q : List Char} (unread : key? cs = none) (seam : Seam ('\x7b' :: cs) q) :
    key? (cs ++ q) = none := by
  cases read : key? (cs ++ q) with
  | none => rfl
  | some found =>
    obtain ⟨key, after⟩ := found
    obtain ⟨isKey, same⟩ := key?_eq_some_iff.mp read
    exfalso
    rcases List.append_eq_append_iff.mp same with ⟨mid, rfl, rfl⟩ | ⟨_ | ⟨c, mid⟩, rfl, rest⟩
    · exact not_isKey_across mid seam isKey
    · obtain rfl : '\x7d' :: after = q := rest
      exact not_isKey_across [] (by simpa using seam) (by simpa using isKey)
    · cases (List.cons.inj rest).1
      rw [key?_eq_some_iff.mpr ⟨isKey, rfl⟩] at unread
      contradiction

theorem Seam.suffix (p₁ : List Char) {p₂ q : List Char} (seam : Seam (p₁ ++ p₂) q) : Seam p₂ q := by
  rcases seam with nothing | last | right
  · exact .inl (List.append_eq_nil_iff.mp nothing).2
  · rw [List.getLast?_append] at last
    cases p₂ with
    | nil => exact .inl rfl
    | cons c cs =>
      refine .inr (.inl ?_)
      simpa [List.getLast?_cons] using last
  · exact .inr (.inr right)

theorem pieces_append {p q : List Char} (seam : Seam p q) : pieces (p ++ q) = pieces p ++ pieces q := by
  fun_induction pieces p with
  | case1 => simp
  | case2 cs key after found _ ih =>
    obtain ⟨isKey, rfl⟩ := key?_eq_some_iff.mp found
    have rest : Seam after q := Seam.suffix ('\x7b' :: (key ++ ['\x7d'])) (by simpa using seam)
    rw [List.cons_append, List.append_assoc, List.cons_append, pieces_placeholder isKey, ih rest, List.cons_append]
  | case3 cs unread ih =>
    have rest : Seam cs q := Seam.suffix ['\x7b'] seam
    rw [List.cons_append, pieces_open (key?_append_none unread seam), ih rest, List.cons_append]
  | case4 c cs other ih =>
    have rest : Seam cs q := Seam.suffix [c] seam
    rw [List.cons_append, pieces_literal other, ih rest, List.cons_append]

def Plain (cs : List Char) : Prop :=
  ∀ before key after, IsKey key → cs ≠ before ++ '\x7b' :: (key ++ '\x7d' :: after)

theorem Plain.tail {c : Char} {cs : List Char} (plain : Plain (c :: cs)) : Plain cs := by
  rintro before key after isKey rfl
  exact plain (c :: before) key after isKey rfl

theorem pieces_plain {cs : List Char} (plain : Plain cs) : pieces cs = cs.map .literal := by
  fun_induction pieces cs with
  | case1 => rfl
  | case2 cs key after found _ ih =>
    obtain ⟨isKey, rfl⟩ := key?_eq_some_iff.mp found
    exact absurd rfl (plain [] key after isKey)
  | case3 cs unread ih => rw [ih plain.tail, List.map_cons]
  | case4 c cs other ih => rw [ih plain.tail, List.map_cons]

/-- How a text is shown in `limit` characters: whole if it fits, and else its first characters before an ellipsis. -/
structure Abridged (limit : Nat) (full text : String) : Prop where
  within : text.length ≤ limit
  whole : full.length ≤ limit → text = full
  cut : limit < full.length →
    ∃ first, first <+: full.toList ∧ text.toList = first ++ ['…'] ∧ text.length = limit

/-- What a key stands for, the arguments being shown as `shown`. Positions are counted from zero. -/
inductive StandsFor (displayName : String) (index : Nat) (shown names : List String) : String → String → Prop where
  | index : StandsFor displayName index shown names "index" (toString index)
  | displayName : StandsFor displayName index shown names "displayName" displayName
  | arguments : StandsFor displayName index shown names "arguments" (", ".intercalate shown)
  | argumentsWithNames : StandsFor displayName index shown names "argumentsWithNames"
      (", ".intercalate (shown.mapIdx fun i text => (names[i]?.map (· ++ "=" ++ text)).getD text))
  | position {key text : String} {i : Nat} : Decimal.IsNumeral key.toList i → i < Decimal.wordLimit →
      shown[i]? = some text → StandsFor displayName index shown names key text

/-- The text of an argument, if nothing is cut: its label, or else its value. -/
def fullText (a : Argument) : String := a.label.getD a.value.render

def written (key : String) : String := "\x7b" ++ key ++ "\x7d"

theorem toList_written (key : String) : (written key).toList = '\x7b' :: (key.toList ++ ['\x7d']) := by
  simp [written]

namespace Formatter

theorem abridged_truncate {f : Formatter} (positive : 0 < f.maxLength) (full : String) :
    Abridged f.maxLength full (f.truncate full) := by
  unfold truncate
  split
  · rename_i fits
    exact ⟨fits, fun _ => rfl, fun long => absurd fits (by omega)⟩
  · rename_i long
    have length : (String.ofList (full.toList.take (f.maxLength - 1) ++ ['…'])).length = f.maxLength := by
      have cut : (full.toList.take (f.maxLength - 1)).length = f.maxLength - 1 := by
        rw [List.length_take, String.length_toList]
        omega
      rw [String.length_ofList, List.length_append, cut, List.length_singleton]
      omega
    refine ⟨by omega, fun fits => absurd fits long, fun _ => ?_⟩
    exact ⟨full.toList.take (f.maxLength - 1), List.take_prefix _ _, String.toList_ofList, length⟩

theorem named_eq (f : Formatter) (args : List Argument) (names : List String) :
    f.named args names =
      (args.map f.argument).mapIdx fun i text => (names[i]?.map (· ++ "=" ++ text)).getD text := by
  induction args generalizing names with
  | nil => cases names <;> rfl
  | cons a args ih =>
    cases names with
    | nil => simp [named, ih]
    | cons name names => simp [named, ih]

variable (f : Formatter) (index : Nat) (args : List Argument) (names : List String)

theorem value?_eq_some_iff {key : String} (isKey : IsKey key.toList) (value : String) :
    f.value? index args names key = some value ↔
      StandsFor f.displayName index (args.map f.argument) names key value := by
  have position : ((Decimal.word? key.toList).bind fun i => args[i]?.map f.argument) = some value ↔
      ∃ i, (Decimal.IsNumeral key.toList i ∧ i < Decimal.wordLimit) ∧ (args.map f.argument)[i]? = some value := by
    simp only [Option.bind_eq_some_iff, Decimal.word?_eq_some_iff (isKey.not_mem (by decide)), List.getElem?_map]
  constructor
  · intro found
    unfold value? at found
    split at found
    · cases found
      exact .index
    · cases found
      exact .displayName
    · cases found
      exact .arguments
    · cases found
      rw [named_eq]
      exact .argumentsWithNames
    · obtain ⟨i, ⟨numeral, word⟩, text⟩ := position.mp found
      exact .position numeral word text
  · intro stands
    cases stands with
    | index => rfl
    | displayName => rfl
    | arguments => rfl
    | argumentsWithNames => rw [← named_eq]; rfl
    | position numeral word text =>
      have literal {c : Char} (mem : c ∈ key.toList) : c.isDigit = true := numeral.2.1 c mem
      unfold value?
      split
      · exact absurd (literal (c := 'i') (by decide)) (by decide)
      · exact absurd (literal (c := 'd') (by decide)) (by decide)
      · exact absurd (literal (c := 'a') (by decide)) (by decide)
      · exact absurd (literal (c := 'a') (by decide)) (by decide)
      · exact position.mpr ⟨_, ⟨numeral, word⟩, text⟩

/-- What is put in for a placeholder has nothing to do with the pattern it stands in. -/
theorem fill_repattern (pattern : String) :
    ({ f with pattern } : Formatter).fill index args names = f.fill index args names := by
  have shown : ({ f with pattern } : Formatter).argument = f.argument := rfl
  funext piece
  cases piece with
  | literal c => rfl
  | placeholder key => simp only [fill, value?, arguments, named_eq, shown]

theorem format_append {p q : String} {n : Nat} {displayName : String} (seam : Seam p.toList q.toList) :
    (new (p ++ q) displayName n).format index args names =
      (new p displayName n).format index args names ++ (new q displayName n).format index args names := by
  have parts : pieces (p ++ q).toList = pieces p.toList ++ pieces q.toList := by
    rw [String.toList_append, pieces_append seam]
  have texts (pattern : String) : (new pattern displayName n).format index args names =
      "".intercalate ((pieces pattern.toList).map ((new "" displayName n).fill index args names)) :=
    congrArg (fun texts => "".intercalate ((pieces pattern.toList).map texts))
      (fill_repattern (new "" displayName n) index args names pattern)
  rw [texts, texts, texts, parts, List.map_append, Text.intercalate_empty_append]

theorem format_plain {p : String} {n : Nat} {displayName : String} (plain : Plain p.toList) :
    (new p displayName n).format index args names = p := by
  show "".intercalate ((pieces p.toList).map _) = p
  rw [pieces_plain plain, List.map_map]
  show "".intercalate (p.toList.map String.singleton) = p
  rw [Text.intercalate_empty_singleton, String.ofList_toList]

theorem format_written {key : String} {n : Nat} {displayName : String} (isKey : IsKey key.toList) :
    (new (written key) displayName n).format index args names =
      ((new (written key) displayName n).value? index args names key).getD (written key) := by
  have alone : pieces (written key).toList = [.placeholder key.toList] := by
    rw [toList_written, pieces_placeholder isKey, pieces_nil]
  show "".intercalate ((pieces (written key).toList).map _) = _
  rw [alone, List.map_singleton, String.intercalate_singleton, fill, String.ofList_toList]
  rfl

end Formatter

/-- A name is made in one pass over its pattern: the two sides of a seam are named apart, what is not a placeholder
stays as it is, and wherever a placeholder stands, the text put in depends on its key alone. A key that stands for
nothing stays as it is written. -/
theorem format_in_one_pass (displayName : String) (maxLength index : Nat) (args : List Argument)
    (names : List String) :
    ∃ shown : List String, List.Forall₂ (Abridged (max maxLength 1)) (args.map fullText) shown ∧
      let name := fun pattern => (Formatter.new pattern displayName maxLength).format index args names
      (∀ p q : String, Seam p.toList q.toList → name (p ++ q) = name p ++ name q) ∧
      (∀ p : String, Plain p.toList → name p = p) ∧
      ∀ key : String, IsKey key.toList →
        (∀ value, StandsFor displayName index shown names key value → name (written key) = value) ∧
        ((∀ value, ¬ StandsFor displayName index shown names key value) → name (written key) = written key) ∧
        ∀ p q : String, name (p ++ written key ++ q) = name p ++ name (written key) ++ name q := by
  let f := Formatter.new "" displayName maxLength
  refine ⟨args.map f.argument, ?_, ?_, ?_, ?_⟩
  · rw [List.forall₂_map_left_iff, List.forall₂_map_right_iff, List.forall₂_same]
    intro a _
    exact Formatter.abridged_truncate (f := f) (Nat.le_max_right ..) _
  · exact fun p q => Formatter.format_append index args names
  · exact fun p => Formatter.format_plain index args names
  · intro key isKey
    have stands := Formatter.value?_eq_some_iff (.new (written key) displayName maxLength) index args names isKey
    have opens : (written key).toList.head? = some '\x7b' := by
      rw [toList_written, List.head?_cons]
    have closes : (written key).toList.getLast? = some '\x7d' := by
      rw [toList_written, ← List.cons_append, List.getLast?_concat]
    refine ⟨fun value standing => ?_, fun nothing => ?_, fun p q => ?_⟩ <;> beta_reduce
    · rw [Formatter.format_written index args names isKey, (stands value).mpr standing, Option.getD_some]
    · have none : (Formatter.new (written key) displayName maxLength).value? index args names key = none :=
        Option.eq_none_iff_forall_ne_some.mpr fun value found => nothing value ((stands value).mp found)
      rw [Formatter.format_written index args names isKey, none, Option.getD_none]
    · have left : Seam p.toList (written key).toList := .inr (.inr (.inr opens))
      have right : Seam (p ++ written key).toList q.toList := by
        refine .inr (.inl ?_)
        rw [String.toList_append, List.getLast?_append, closes, Option.some_or]
      rw [Formatter.format_append index args names right, Formatter.format_append index args names left]

end DisplayName

end TestEngine

import Mathlib.Data.List.Induction
import TestEngine.EngineError

/-! The written form of identifiers. What is written is read as the identifier it was written for, whatever its kinds
and values contain, unless a kind is empty; and what is read is an identifier that can be written and read again. -/
namespace TestEngine
namespace UniqueId

theorem not_isReserved_digit : ∀ n < 16, isReserved (Hex.digit n) = false := by decide

theorem toNat_lt_of_isReserved {c : Char} (reserved : isReserved c = true) : c.toNat < 256 := by
  simp only [isReserved, Bool.or_eq_true, beq_iff_eq] at reserved
  rcases reserved with (((rfl | rfl) | rfl) | rfl) | rfl <;> decide

/-- An escape is read as the character it was written for. -/
theorem escaped?_digits {c : Char} (reserved : isReserved c = true) :
    escaped? [Hex.digit (c.toNat / 16), Hex.digit (c.toNat % 16)] = some c := by
  simp only [isReserved, Bool.or_eq_true, beq_iff_eq] at reserved
  rcases reserved with (((rfl | rfl) | rfl) | rfl) | rfl <;> decide

theorem decode_plain {c : Char} (plain : c ≠ '%') (cs : List Char) : decode (c :: cs) = (decode cs).map (c :: ·) := by
  rw [decode.eq_def]
  exact if_neg plain

theorem decode_escape {a b c : Char} {cs read : List Char} (escape : escaped? [a, b] = some c)
    (rest : decode cs = some read) : decode ('%' :: a :: b :: cs) = some (c :: read) := by
  rw [decode.eq_def]
  simp only [if_true, escape, rest]

theorem decode_encode (cs : List Char) : decode (encode cs) = some cs := by
  induction cs with
  | nil => rfl
  | cons c cs ih =>
    by_cases reserved : isReserved c = true
    · rw [encode, if_pos reserved, decode_escape (escaped?_digits reserved) ih]
    · have plain : c ≠ '%' := by
        rintro rfl
        exact reserved rfl
      rw [encode, if_neg reserved, decode_plain plain, ih, Option.map_some]

/-- Of the reserved characters only the one that begins an escape is left in what is written. -/
theorem not_mem_encode {d : Char} (reserved : isReserved d = true) (other : d ≠ '%') (cs : List Char) :
    d ∉ encode cs := by
  have plain (n : Nat) (digit : n < 16) : d ≠ Hex.digit n := by
    rintro rfl
    rw [not_isReserved_digit n digit] at reserved
    contradiction
  induction cs with
  | nil => exact List.not_mem_nil
  | cons c cs ih =>
    by_cases escaped : isReserved c = true
    · have small := toNat_lt_of_isReserved escaped
      have high : c.toNat / 16 < 16 := by omega
      have low : c.toNat % 16 < 16 := by omega
      simp only [encode, escaped, if_true, List.mem_cons, not_or]
      exact ⟨other, plain _ high, plain _ low, ih⟩
    · have apart : d ≠ c := by
        rintro rfl
        exact escaped reserved
      simp only [encode, escaped, Bool.false_eq_true, if_false, List.mem_cons, not_or]
      exact ⟨apart, ih⟩

theorem encode_eq_nil {cs : List Char} : encode cs = [] ↔ cs = [] := by
  constructor
  · intro nothing
    have read := decode_encode cs
    rw [nothing] at read
    exact (Option.some.inj read).symm
  · rintro rfl
    rfl

/-- Every character that is read is written as something. -/
theorem decode_ne_nil {cs read : List Char} (something : cs ≠ []) (decoded : decode cs = some read) : read ≠ [] := by
  rintro rfl
  rw [decode.eq_def] at decoded
  split at decoded
  · contradiction
  · split at decoded
    · split at decoded
      · split at decoded <;> simp at decoded
      · simp at decoded
      · contradiction
    · simp at decoded

theorem unbracket_enclosed (inner : List Char) : unbracket ('[' :: (inner ++ [']'])) = some inner := by
  simp [unbracket]

/-- A segment is read as it was written, unless it has no kind. -/
theorem parseSegment?_render (s : Segment) :
    parseSegment? (renderSegment s) = if s.kind = "" then none else some s := by
  have whole : ':' ∉ encode s.kind.toList := not_mem_encode rfl (by decide) _
  have enclosed : renderSegment s = '[' :: ((encode s.kind.toList ++ ':' :: encode s.value.toList) ++ [']']) := by
    simp [renderSegment]
  have named : (encode s.kind.toList).isEmpty = true ↔ s.kind = "" := by
    rw [List.isEmpty_iff, encode_eq_nil, String.toList_eq_nil_iff]
  rw [enclosed]
  simp only [parseSegment?, unbracket_enclosed, Text.splitOnce_append whole, Option.bind_eq_bind, Option.bind_some,
    named, decode_encode, String.ofList_toList, Option.pure_def]

/-- What is read as a segment has a kind. -/
theorem kind_of_parseSegment? {part : List Char} {s : Segment} (read : parseSegment? part = some s) : s.kind ≠ "" := by
  simp only [parseSegment?, Option.bind_eq_bind, Option.bind_eq_some_iff] at read
  obtain ⟨inner, -, ⟨kind, value⟩, -, read⟩ := read
  split at read
  · contradiction
  · rename_i named
    simp only [Option.bind_eq_some_iff, Option.pure_def, Option.some.injEq] at read
    obtain ⟨k, decoded, v, -, rfl⟩ := read
    have something : kind ≠ [] := by simpa using named
    have told := decode_ne_nil something decoded
    simpa using told

theorem slash_not_mem_renderSegment (s : Segment) : '/' ∉ renderSegment s := by
  have kind := not_mem_encode (d := '/') rfl (by decide) s.kind.toList
  have value := not_mem_encode (d := '/') rfl (by decide) s.value.toList
  simp [renderSegment, kind, value]

theorem renderChars_eq_intercalate (segments : List Segment) :
    renderChars segments = ['/'].intercalate (segments.map renderSegment) := by
  fun_induction renderChars segments with
  | case1 => rfl
  | case2 s => simp
  | case3 s t r ih => simp [ih]

theorem split_renderChars {segments : List Segment} (something : segments ≠ []) :
    Text.split '/' (renderChars segments) = segments.map renderSegment := by
  have whole : ∀ part ∈ segments.map renderSegment, '/' ∉ part := by
    simpa using fun s _ => slash_not_mem_renderSegment s
  rw [renderChars_eq_intercalate, Text.split_eq_splitOn, List.splitOn_intercalate '/' whole (by simpa using something)]

theorem mapM_parseSegment?_render (segments : List Segment) : (segments.map renderSegment).mapM parseSegment? =
    if ∀ s ∈ segments, s.kind ≠ "" then some segments else none := by
  induction segments with
  | nil => rfl
  | cons s segments ih =>
    rw [List.map_cons, List.mapM_cons, parseSegment?_render, ih]
    by_cases named : s.kind ≠ "" ∧ ∀ x ∈ segments, x.kind ≠ ""
    · rw [if_neg named.1, if_pos named.2, if_pos (List.forall_mem_cons.mpr named)]
      rfl
    · rw [if_neg (mt List.forall_mem_cons.mp named)]
      by_cases first : s.kind = ""
      · rw [if_pos first]
        rfl
      · rw [if_neg first, if_neg fun others => named ⟨first, others⟩]
        rfl

theorem renderChars_ne_nil {segments : List Segment} (something : segments ≠ []) : renderChars segments ≠ [] := by
  fun_cases renderChars segments <;> simp_all [renderSegment]

theorem parse?_render {id : UniqueId} (something : id.segments ≠ []) :
    parse? id.render = if ∀ s ∈ id.segments, s.kind ≠ "" then some id else none := by
  have written : id.render.isEmpty = false := by
    have chars := renderChars_ne_nil something
    simpa [render] using chars
  rw [parse?, written, if_neg Bool.false_ne_true, render, String.toList_ofList, split_renderChars something,
    mapM_parseSegment?_render]
  split <;> rfl

theorem segments_of_mapM {parts : List (List Char)} {segments : List Segment}
    (read : parts.mapM parseSegment? = some segments) :
    segments.length = parts.length ∧ ∀ s ∈ segments, s.kind ≠ "" := by
  induction parts generalizing segments with
  | nil =>
    cases read
    exact ⟨rfl, nofun⟩
  | cons part parts ih =>
    simp only [List.mapM_cons, Option.bind_eq_bind, Option.bind_eq_some_iff, Option.pure_def,
      Option.some.injEq] at read
    obtain ⟨s, first, rest, others, rfl⟩ := read
    obtain ⟨count, named⟩ := ih others
    exact ⟨congrArg (· + 1) count, List.forall_mem_cons.mpr ⟨kind_of_parseSegment? first, named⟩⟩

/-- What is read has segments, and each of them has a kind. -/
theorem segments_of_parse? {text : String} {id : UniqueId} (read : parse? text = some id) :
    id.segments ≠ [] ∧ ∀ s ∈ id.segments, s.kind ≠ "" := by
  unfold parse? at read
  split at read
  · contradiction
  · obtain ⟨segments, parts, rfl⟩ := Option.map_eq_some_iff.mp read
    obtain ⟨count, named⟩ := segments_of_mapM parts
    have pieces := List.length_pos_iff.mpr (List.splitOn_ne_nil '/' text.toList)
    rw [← Text.split_eq_splitOn, ← count] at pieces
    exact ⟨List.length_pos_iff.mp pieces, named⟩

/-- The identifiers that can be made: roots, and what is appended to one that is made. -/
inductive Made : UniqueId → Prop where
  | root (kind value : String) : Made (root kind value)
  | append {id : UniqueId} (made : Made id) (kind value : String) : Made (id.append kind value)

theorem made_iff {id : UniqueId} : Made id ↔ id.segments ≠ [] := by
  constructor
  · intro made
    cases made <;> simp [root, append]
  · obtain ⟨segments⟩ := id
    intro something
    induction segments using List.reverseRecOn with
    | nil => contradiction
    | append_singleton segments s ih =>
      by_cases single : segments = []
      · subst single
        exact .root s.kind s.value
      · exact .append (ih single) s.kind s.value

theorem parse_eq_ok_iff {text : String} {id : UniqueId} : parse text = .ok id ↔ parse? text = some id := by
  unfold parse
  cases parse? text <;> simp

/-- An identifier made of any segments is written so that it is read as itself, unless one of them has no kind: then
what is written of it is refused. Whatever text is read as an identifier, that identifier is well formed; so the text
that is written of it is one of those that are read as it, the same for all of them. -/
theorem written_read_back :
    (∀ id, Made id →
      ((∀ s ∈ id.segments, s.kind ≠ "") → parse id.render = .ok id) ∧
      ((∃ s ∈ id.segments, s.kind = "") → parse id.render = .error (.invalidUniqueId id.render))) ∧
    ∀ text id, parse text = .ok id → id.isWellFormed = true ∧ Made id ∧ parse id.render = .ok id := by
  constructor
  · intro id made
    have read := parse?_render (made_iff.mp made)
    constructor
    · intro named
      rw [if_pos named] at read
      exact parse_eq_ok_iff.mpr read
    · intro ⟨s, member, unnamed⟩
      rw [if_neg fun named => named s member unnamed] at read
      simp only [parse, read]
  · intro text id ok
    have segments := segments_of_parse? (parse_eq_ok_iff.mp ok)
    have read := parse?_render segments.1
    rw [if_pos segments.2] at read
    exact ⟨isWellFormed_iff.mpr segments, made_iff.mpr segments.1, parse_eq_ok_iff.mpr read⟩

/-- Reserved characters, what looks like an escape, an empty value and an empty kind; and a text that is not written
the way identifiers are. -/
theorem written_read_back_sample :
    let id := ((root "engine" "a/b[c]:d%").append "%2F" "").append "größe" "100%25"
    (Made id ∧ (∀ s ∈ id.segments, s.kind ≠ "") ∧ parse id.render = .ok id) ∧
    (Made (id.append "" "x") ∧ (∃ s ∈ (id.append "" "x").segments, s.kind = "") ∧
      parse (id.append "" "x").render = .error (.invalidUniqueId (id.append "" "x").render)) ∧
    parse "[k:%2fv:w%+a]" = .ok (root "k" "/v:w\n") ∧ (root "k" "/v:w\n").isWellFormed = true ∧
      parse (root "k" "/v:w\n").render = .ok (root "k" "/v:w\n") := by
  intro id
  obtain ⟨written, read⟩ := written_read_back
  have made : Made id := ((Made.root _ _).append _ _).append _ _
  have named : ∀ s ∈ id.segments, s.kind ≠ "" := by decide
  have unnamed : ∃ s ∈ (id.append "" "x").segments, s.kind = "" := ⟨⟨"", "x"⟩, by decide, rfl⟩
  have odd : parse "[k:%2fv:w%+a]" = .ok (root "k" "/v:w\n") := parse_eq_ok_iff.mpr (by decide +kernel)
  obtain ⟨wellFormed, -, again⟩ := read _ _ odd
  exact ⟨⟨made, named, (written id made).1 named⟩,
    ⟨made.append _ _, unnamed, (written _ (made.append "" "x")).2 unnamed⟩, odd, wellFormed, again⟩

end UniqueId
end TestEngine

/-! Cutting text at a separator. -/

namespace TestEngine.Text

/-- The pieces between occurrences of `sep`, one more than there are occurrences. -/
def split (sep : Char) : List Char → List (List Char)
  | [] => [[]]
  | c :: cs =>
    if c = sep then [] :: split sep cs
    else match split sep cs with
      | [] => [[c]]
      | p :: ps => (c :: p) :: ps

/-- What stands before and after the first `sep`, if there is one. -/
def splitOnce (sep : Char) : List Char → Option (List Char × List Char)
  | [] => none
  | c :: cs =>
    if c = sep then some ([], cs)
    else (splitOnce sep cs).map fun (before, after) => (c :: before, after)

/-- The pieces are those of `List.splitOn`, and its lemmas are theirs. -/
theorem split_eq_splitOn (sep : Char) (cs : List Char) : split sep cs = cs.splitOn sep := by
  induction cs with
  | nil => rfl
  | cons c cs ih =>
    have something := List.splitOn_ne_nil sep cs
    rw [split, List.splitOn_cons_eq_if_modifyHead, ih]
    simp only [beq_iff_eq]
    split
    · rfl
    · split
      · contradiction
      · rename_i pieces
        rw [pieces]
        rfl

theorem not_mem_of_mem_split {sep : Char} {cs piece : List Char} (member : piece ∈ split sep cs) : sep ∉ piece := by
  rw [split_eq_splitOn] at member
  induction cs generalizing piece with
  | nil =>
    obtain rfl : piece = [] := by simpa using member
    exact List.not_mem_nil
  | cons c cs ih =>
    obtain ⟨first, others, pieces⟩ := List.exists_cons_of_ne_nil (List.splitOn_ne_nil sep cs)
    rw [List.splitOn_cons_eq_if_modifyHead, pieces] at member
    rw [pieces] at ih
    split at member
    · rcases List.mem_cons.mp member with rfl | later
      · exact List.not_mem_nil
      · exact ih later
    · rename_i other
      rcases List.mem_cons.mp member with rfl | later
      · have apart : sep ≠ c := fun same => other (by simp [same])
        simp [apart, ih List.mem_cons_self]
      · exact ih (List.mem_cons_of_mem first later)

theorem splitOnce_append {sep : Char} {before : List Char} (whole : sep ∉ before) (after : List Char) :
    splitOnce sep (before ++ sep :: after) = some (before, after) := by
  induction before with
  | nil => simp [splitOnce]
  | cons c before ih =>
    simp only [List.mem_cons, not_or] at whole
    rw [List.cons_append, splitOnce, if_neg (Ne.symm whole.1), ih whole.2]
    rfl

theorem splitOnce_eq_some_iff {sep : Char} {cs before after : List Char} :
    splitOnce sep cs = some (before, after) ↔ sep ∉ before ∧ cs = before ++ sep :: after := by
  constructor
  · intro cut
    induction cs generalizing before with
    | nil => contradiction
    | cons c cs ih =>
      rw [splitOnce] at cut
      split at cut
      · rename_i here
        cases cut
        exact ⟨List.not_mem_nil, congrArg (· :: _) here⟩
      · rename_i other
        obtain ⟨⟨first, _⟩, later, same⟩ := Option.map_eq_some_iff.mp cut
        cases same
        obtain ⟨whole, rfl⟩ := ih later
        exact ⟨by simp [Ne.symm other, whole], rfl⟩
  · rintro ⟨whole, rfl⟩
    exact splitOnce_append whole after

theorem splitOnce_eq_none_iff {sep : Char} {cs : List Char} : splitOnce sep cs = none ↔ sep ∉ cs := by
  induction cs with
  | nil => simp [splitOnce]
  | cons c cs ih =>
    rw [splitOnce]
    split
    · rename_i here
      simp [here]
    · rename_i other
      rw [Option.map_eq_none_iff, ih, List.mem_cons, not_or, and_iff_right (Ne.symm other)]

end TestEngine.Text

import TestEngine.Proofs.Spellings

/-! Prefixes of identifiers and of what is written of them. Whatever the kinds and values contain, no two identifiers
are written the same, and one leads to another if and only if what is written of the other begins with what is written
of it and ends there or goes on with a slash. -/
namespace TestEngine
namespace UniqueId

theorem encode_injective : Function.Injective encode := by
  intro cs cs' same
  have read := decode_encode cs
  rw [same, decode_encode] at read
  exact (Option.some.inj read).symm

/-- What is written of a segment determines it, also where it has no kind. -/
theorem renderSegment_injective : Function.Injective renderSegment := by
  intro s t same
  have whole (s : Segment) : ':' ∉ encode s.kind.toList := not_mem_encode rfl (by decide) _
  have inner : encode s.kind.toList ++ ':' :: encode s.value.toList =
      encode t.kind.toList ++ ':' :: encode t.value.toList := List.append_cancel_right (List.cons.inj same).2
  have cut := Text.splitOnce_eq_some_iff.mpr ⟨whole t, inner⟩
  rw [Text.splitOnce_append (whole s), Option.some.injEq, Prod.mk.injEq] at cut
  have kind := String.toList_inj.mp (encode_injective cut.1)
  have value := String.toList_inj.mp (encode_injective cut.2)
  cases s
  cases t
  exact (Segment.mk.injEq ..).mpr ⟨kind, value⟩

theorem renderChars_inj {xs ys : List Segment} (something : xs ≠ []) (something' : ys ≠ []) :
    renderChars xs = renderChars ys ↔ xs = ys := by
  constructor
  · intro same
    have parts := congrArg (Text.split '/') same
    rw [split_renderChars something, split_renderChars something'] at parts
    exact (List.map_inj_right fun _ _ => @renderSegment_injective _ _).mp parts
  · exact congrArg renderChars

theorem renderChars_append {segments : List Segment} (something : segments ≠ []) (s : Segment) (more : List Segment) :
    renderChars (segments ++ s :: more) = renderChars segments ++ '/' :: renderChars (s :: more) := by
  fun_induction renderChars segments with
  | case1 => contradiction
  | case2 t => rfl
  | case3 t u r ih =>
    have later := ih (List.cons_ne_nil u r)
    rw [List.cons_append] at later
    simp [renderChars, later]

/-- A way begins with another if and only if what is written of it does, up to a slash or to the end. -/
theorem prefix_iff_renderChars {xs ys : List Segment} (something : xs ≠ []) (something' : ys ≠ []) :
    xs <+: ys ↔ renderChars ys = renderChars xs ∨ ∃ rest, renderChars ys = renderChars xs ++ '/' :: rest := by
  constructor
  · rintro ⟨rest, rfl⟩
    cases rest with
    | nil => exact .inl (by rw [List.append_nil])
    | cons s more => exact .inr ⟨_, renderChars_append something s more⟩
  · rintro (same | ⟨rest, same⟩)
    · obtain rfl := (renderChars_inj something' something).mp same
      exact List.prefix_rfl
    · have parts := congrArg (Text.split '/') same
      rw [split_renderChars something', Text.split_eq_splitOn, List.splitOn_append_cons_self, ← Text.split_eq_splitOn,
        split_renderChars something] at parts
      exact (List.prefix_map_iff_of_injective renderSegment_injective).mp ⟨_, parts.symm⟩

theorem render_eq_append_iff {a b : UniqueId} : (∃ rest, a.render = b.render ++ "/" ++ rest) ↔
    ∃ rest, renderChars a.segments = renderChars b.segments ++ '/' :: rest := by
  constructor
  · rintro ⟨rest, same⟩
    refine ⟨rest.toList, ?_⟩
    have chars := congrArg String.toList same
    simpa [render] using chars
  · rintro ⟨rest, same⟩
    refine ⟨String.ofList rest, ?_⟩
    rw [← String.toList_inj]
    simp [render, same]

theorem render_eq_iff {a b : UniqueId} : a.render = b.render ↔ renderChars a.segments = renderChars b.segments :=
  String.ofList_inj

/-- Of two identifiers made of any segments, one is a prefix of the other if and only if what is written of it is all
that is written of the other, or what is written of the other up to a slash. Two that differ are written differently. -/
theorem prefixes_written :
    (∀ a b, Made a → Made b →
      (a.hasPrefix b = true ↔ a.render = b.render ∨ ∃ rest, a.render = b.render ++ "/" ++ rest)) ∧
    ∀ a b, Made a → Made b → a ≠ b → a.render ≠ b.render := by
  constructor
  · intro a b made made'
    rw [hasPrefix, List.isPrefixOf_iff_prefix, prefix_iff_renderChars (made_iff.mp made') (made_iff.mp made),
      render_eq_iff, render_eq_append_iff]
  · intro a b made made' other same
    rw [render_eq_iff, renderChars_inj (made_iff.mp made) (made_iff.mp made')] at same
    exact other (congrArg UniqueId.mk same)

/-- A value with a slash in it, and behind it a segment with neither a kind nor a value; beside it a value that begins
with the other value. -/
theorem prefixes_written_sample :
    let a := root "class" "A/B"
    let b := a.append "" ""
    let c := (root "class" "A/BC").append "" ""
    Made a ∧ Made b ∧ Made c ∧ b.hasPrefix a = true ∧ (∃ rest, b.render = a.render ++ "/" ++ rest) ∧
      c.hasPrefix a = false ∧ (¬ ∃ rest, c.render = a.render ++ "/" ++ rest) ∧ b ≠ c ∧ b.render ≠ c.render := by
  intro a b c
  obtain ⟨leads, apart⟩ := prefixes_written
  have first : Made a := .root _ _
  have second : Made b := first.append _ _
  have third : Made c := (Made.root _ _).append _ _
  have other : b ≠ c := by decide
  refine ⟨first, second, third, by decide, ?_, by decide, ?_, other, apart b c second third other⟩
  · have written := (leads b a second first).mp (by decide)
    exact written.resolve_left fun same => absurd (render_eq_iff.mp same) (by decide)
  · intro written
    have leading := (leads c a third first).mpr (.inr written)
    revert leading
    decide

end UniqueId
end TestEngine

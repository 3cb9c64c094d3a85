import TestEngine.Builtin
import TestEngine.Proofs.Substitution

/-! The names of repetitions. The display name is put into the pattern first and the numbers after it, so that the name
is the pattern with its placeholders filled in one pass only where putting in the display name makes none of the
placeholders for numbers. -/
namespace TestEngine.Extension
open Text

variable {σ ν : Type}

/-- The placeholders for numbers and what is put in for them. -/
def numbers (current total : Nat) : List (String × String) :=
  [("\x7btotalRepetitions\x7d", toString total), ("\x7bcurrentRepetition\x7d", toString current)]

/-- All placeholders of a pattern and what is put in for them. -/
def fillings (displayName : String) (current total : Nat) : List (String × String) :=
  [("\x7bdisplayName\x7d", displayName)] ++ numbers current total

theorem separate_fillings (displayName : String) (current total : Nat) :
    Separate (fillings displayName current total) where
  opened := by
    simp only [fillings, numbers, List.cons_append, List.nil_append, List.forall_mem_cons]
    refine ⟨⟨"displayName\x7d".toList, rfl, by decide⟩, ⟨"totalRepetitions\x7d".toList, rfl, by decide⟩,
      ⟨"currentRepetition\x7d".toList, rfl, by decide⟩, nofun⟩
  apart := by
    have words : ((fillings displayName current total).map Prod.fst).Pairwise
        fun word other => ¬ word.toList <+: other.toList ∧ ¬ other.toList <+: word.toList := by
      show ["\x7bdisplayName\x7d", "\x7btotalRepetitions\x7d", "\x7bcurrentRepetition\x7d"].Pairwise _
      decide
    rw [List.pairwise_map] at words
    exact words

theorem isDigit_of_mem_toString {n : Nat} {c : Char} (member : c ∈ (toString n).toList) : c.isDigit = true := by
  have member : c ∈ n.repr.toList := member
  rw [Nat.toList_repr] at member
  exact Nat.isDigit_of_mem_toDigits (by decide) (by decide) member

theorem toString_ne_nil (n : Nat) : (toString n).toList ≠ [] := by
  show n.repr.toList ≠ []
  rw [Nat.toList_repr]
  exact Nat.toDigits_ne_nil

theorem not_mem_toString {n : Nat} {c : Char} (other : c.isDigit = false) : c ∉ (toString n).toList := fun member => by
  simpa [other] using isDigit_of_mem_toString member

theorem numbers_unbraced (current total : Nat) : ∀ pair ∈ numbers current total, '\x7b' ∉ pair.2.toList := by
  simp only [numbers, List.forall_mem_cons]
  exact ⟨not_mem_toString (by decide), not_mem_toString (by decide), nofun⟩

/-- The numbers are put in one after the other, but no number makes a placeholder. -/
theorem numbers_filled (text : String) (current total : Nat) :
    Filled (numbers current total) text.toList
      ((text.replace "\x7btotalRepetitions\x7d" (toString total)).replace "\x7bcurrentRepetition\x7d"
        (toString current)).toList := by
  have separate : Separate (numbers current total) := (separate_fillings "" current total).append_right
  have filled := replace_filled text (toString total) (show "\x7btotalRepetitions\x7d" ≠ "" by decide)
  have letters : ("\x7bcurrentRepetition\x7d".toList.all fun c => !c.isDigit) = true := by decide
  refine filled.trans_of_occurrences_le separate (replace_filled _ (toString current) (by decide))
    (filled.occurrences_eq separate ?_ ?_).le
  · simp only [List.forall_mem_singleton]
    refine ⟨toString_ne_nil total, fun c digit letter => not_mem_toString ?_ digit⟩
    simpa using List.all_eq_true.mp letters c letter
  · simp only [List.forall_mem_singleton]
    exact not_mem_toString (by decide)

/-- The name of a repetition is the pattern into which first the display name and then, in one more pass, the numbers
have been put. It is the pattern with all placeholders filled in one pass, so that the display name is put in as it is,
exactly where no placeholder for a number has come about by putting in the display name. -/
theorem repetitions_named (total : Nat) (pattern : String) :
    ∃ provider give, (repeated total pattern : Extension σ ν).invocationProvider = some provider ∧
      provider.provide = .look give ∧
      ∀ v : View, ∃ invocations, give v = .done (.ok (.ofList invocations)) ∧ invocations.length = total ∧
        ∀ i invocation, invocations[i]? = some invocation →
          ∃ mixed, Filled [("\x7bdisplayName\x7d", v.node.displayName)] pattern.toList mixed ∧
            Filled (numbers (i + 1) total) mixed invocation.displayName.toList ∧
            (Filled (fillings v.node.displayName (i + 1) total) pattern.toList invocation.displayName.toList ↔
              occurrences (numbers (i + 1) total) mixed = occurrences (numbers (i + 1) total) pattern.toList) ∧
            (occurrences (numbers (i + 1) total) mixed = occurrences (numbers (i + 1) total) pattern.toList →
              "\x7bdisplayName\x7d".toList <:+: pattern.toList →
                v.node.displayName.toList <:+: invocation.displayName.toList) := by
  refine ⟨_, _, rfl, rfl, fun v => ⟨_, rfl, by simp, fun i invocation found => ?_⟩⟩
  obtain ⟨j, listed, rfl⟩ : ∃ j, (List.range total)[i]? = some j ∧ _ = invocation := by
    simpa only [List.getElem?_map, Option.map_eq_some_iff] using found
  obtain rfl : j = i := by grind
  have separate := separate_fillings v.node.displayName (j + 1) total
  have first := replace_filled pattern v.node.displayName (show "\x7bdisplayName\x7d" ≠ "" by decide)
  have second := numbers_filled (pattern.replace "\x7bdisplayName\x7d" v.node.displayName) (j + 1) total
  have boundary := first.trans_iff separate second (numbers_unbraced (j + 1) total)
  refine ⟨_, first, second, boundary, fun same there => ?_⟩
  exact (boundary.mpr same).contains_value separate List.mem_cons_self there

/-- A display name that has a placeholder for a number. -/
def braced : View :=
  { (default : View) with node := { (default : Node) with displayName := "a \x7btotalRepetitions\x7d" } }

theorem repetitions_named_braced :
    ∃ provider give invocations,
      (repeated 1 "\x7bdisplayName\x7d" : Extension Unit Unit).invocationProvider = some provider ∧
      provider.provide = .look give ∧ give braced = .done (.ok (.ofList invocations)) ∧
      invocations.map (·.displayName) = ["a 1"] ∧
      Filled (fillings braced.node.displayName 1 1) "\x7bdisplayName\x7d".toList
        "a \x7btotalRepetitions\x7d".toList := by
  obtain ⟨provider, give, provides, gives, named⟩ := repetitions_named (σ := Unit) (ν := Unit) 1 "\x7bdisplayName\x7d"
  obtain ⟨invocations, given, one, each⟩ := named braced
  refine ⟨provider, give, invocations, provides, gives, given, ?_, ?_⟩
  · obtain ⟨invocation, rfl⟩ := List.length_eq_one_iff.mp one
    obtain ⟨mixed, first, second, -⟩ := each 0 invocation rfl
    have separate := separate_fillings braced.node.displayName 1 1
    obtain rfl := separate.append_left.unique first (.word List.mem_cons_self .nil)
    have filled : Filled (numbers 1 1) (braced.node.displayName.toList ++ []) "a 1".toList :=
      .literal (by decide) (.literal (by decide) (.word List.mem_cons_self .nil))
    have name := separate.append_right.unique second filled
    rw [List.map_singleton, String.toList_inj.mp name]
  · exact .word List.mem_cons_self .nil

end TestEngine.Extension

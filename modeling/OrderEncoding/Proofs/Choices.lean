import Mathlib.Algebra.BigOperators.Group.List.Basic
import Mathlib.Data.List.Forall2
import Mathlib.Data.List.Lex
import Mathlib.Data.List.Nodup
import OrderEncoding.Choices

/-!
# Choices from lists

A choice from a list of lists is a list with one element of each of them, and
there are as many as the product of the lengths says.  Some choice holds throughout
when every list has an element that holds, and every choice holds somewhere when
some list holds throughout.
-/

namespace OrderEncoding

variable {α : Type*}

theorem mem_choices
    {sets : List (List α)}
    {choice : List α} :
    choice ∈ choices sets ↔ List.Forall₂ (· ∈ ·) choice sets := by
  induction sets generalizing choice with
  | nil => simp
  | cons set rest inductionHypothesis =>
      simp only [choices_cons, List.mem_flatMap, List.mem_map,
        List.forall₂_cons_right_iff]
      constructor
      · rintro ⟨first, firstMem, others, othersMem, rfl⟩
        exact ⟨first, others, firstMem,
          inductionHypothesis.mp othersMem, rfl⟩
      · rintro ⟨first, others, firstMem, othersMem, rfl⟩
        exact ⟨first, firstMem, others,
          inductionHypothesis.mpr othersMem, rfl⟩

theorem length_choices (sets : List (List α)) :
    (choices sets).length = (sets.map List.length).prod := by
  induction sets with
  | nil => rfl
  | cons set rest inductionHypothesis =>
      rw [choices_cons, List.length_flatMap]
      simp [inductionHypothesis]

/-- The choices from ordered lists come in lexicographic order. -/
theorem pairwise_lex_choices
    {precedes : α → α → Prop}
    {sets : List (List α)}
    (ordered : ∀ set ∈ sets, set.Pairwise precedes) :
    (choices sets).Pairwise (List.Lex precedes) := by
  induction sets with
  | nil => exact List.pairwise_singleton _ []
  | cons set rest inductionHypothesis =>
      obtain ⟨setOrdered, restOrdered⟩ := List.forall_mem_cons.mp ordered
      rw [choices_cons, List.pairwise_flatMap]
      constructor
      · intro element _
        rw [List.pairwise_map]
        exact (inductionHypothesis restOrdered).imp .cons
      · refine setOrdered.imp fun {first second} before => ?_
        intro choice inFirst other inSecond
        obtain ⟨_, _, rfl⟩ := List.mem_map.mp inFirst
        obtain ⟨_, _, rfl⟩ := List.mem_map.mp inSecond
        exact .rel before

/-- From lists without repetitions every choice is made once. -/
theorem nodup_choices
    {sets : List (List α)}
    (nodup : ∀ set ∈ sets, set.Nodup) :
    (choices sets).Nodup :=
  (pairwise_lex_choices nodup).imp List.Lex.to_ne

theorem any_all_choices
    (holds : α → Bool)
    (sets : List (List α)) :
    (choices sets).any (·.all holds) = sets.all (·.any holds) := by
  induction sets with
  | nil => rfl
  | cons set rest inductionHypothesis =>
      simp only [choices_cons, List.any_flatMap, List.any_map,
        Function.comp_def, List.all_cons, ← List.and_any_distrib_left,
        ← List.and_any_distrib_right, inductionHypothesis]

theorem all_any_choices
    (holds : α → Bool)
    (sets : List (List α)) :
    (choices sets).all (·.any holds) = sets.any (·.all holds) := by
  induction sets with
  | nil => rfl
  | cons set rest inductionHypothesis =>
      simp only [choices_cons, List.all_flatMap, List.all_map,
        Function.comp_def, List.any_cons, ← List.or_all_distrib_left,
        ← List.or_all_distrib_right, inductionHypothesis]

end OrderEncoding

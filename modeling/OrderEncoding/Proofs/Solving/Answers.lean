import OrderEncoding.Proofs.Dimacs.RoundTrip
import OrderEncoding.Proofs.Solving.AnswerFormat

/-!
# Reading answers

The two answers that a search writes are read as the verdicts that they stand
for.
-/

namespace OrderEncoding
namespace Verdict

open Written (IsNumeral)

theorem read_unsatisfiable : read "UNSAT\n" = .ok .unsatisfiable := by
  decide

/-- The text of a clause ends a model with the numbers of the clause. -/
theorem ends_clauseText
    {numbers : List Int}
    (proper : ∀ number ∈ numbers, number ≠ 0 ∧ Word.Fits number) :
    Ends (Dimacs.clauseText numbers) numbers := by
  have split := Dimacs.words_clauseText numbers
  have visible : Text.words (Dimacs.clauseText numbers) ≠ [] := by
    rw [split]
    exact List.append_ne_nil_of_right_ne_nil _ (List.cons_ne_nil _ _)
  refine ⟨_, ['0'], [], ⟨visible, .inl split⟩, ⟨?_, ?_⟩,
    Numeral.readWord?_eq_some_iff_isNumeral.mp (by decide)⟩
  · rw [List.forall₂_map_left_iff, List.forall₂_same]
    exact fun number member => Numeral.readWord?_eq_some_iff_isNumeral.mp
      (Numeral.readWord?_toList_ofInt (proper number member).2)
  · exact fun member => (proper 0 member).1 rfl

/-- The line of a model after the word that announces it is read as the model. -/
theorem read_model
    {numbers : List Int}
    (proper : ∀ number ∈ numbers, number ≠ 0 ∧ Word.Fits number) :
    read ("SAT\n" ++ Dimacs.clauseLine numbers) = .ok (.model numbers) := by
  have written : ("SAT\n" ++ Dimacs.clauseLine numbers).toList =
      ["SAT".toList, Dimacs.clauseText numbers].flatMap (· ++ ['\n']) := by
    simp [Dimacs.toList_clauseLine]
  have unbroken : ∀ line ∈ ["SAT".toList, Dimacs.clauseText numbers],
      Text.Unbroken line := by
    simp only [List.forall_mem_cons]
    exact ⟨by decide, Dimacs.unbroken_clauseText numbers, by simp⟩
  have announced : Announces "SAT".toList := by decide
  rw [read, written, Text.lines_flatMap unbroken]
  exact Terminated.readLines_eq
    ⟨[], numbers, true, _, [], .line (.announces announced) (.done _),
      ends_clauseText proper, rfl⟩

end Verdict
end OrderEncoding

import OrderEncoding.Proofs.Pairings
import OrderEncoding.Proofs.Solving.Reports
import OrderEncoding.Proofs.Text.Separators

/-!
# Reports tell enumerations apart

The words of a binding's line are its name, a sign and its value.  The lines of a
solution end at the line of dashes, so the solutions are told apart line by line,
and the markers say whether the search was finished.  Different enumerations
therefore have different reports.
-/

namespace OrderEncoding

namespace Binding

/-- The words of a binding's text are the name, the sign and the value. -/
theorem words_text
    {binding : Binding}
    (named : isIdentifier binding.name.toList = true) :
    Text.words binding.text.toList =
      [binding.name.toList, ['='], (Numeral.ofInt binding.value).toList] := by
  have nonempty : binding.name.toList ≠ [] := by
    intro empty
    rw [empty] at named
    contradiction
  have written : binding.text.toList = binding.name.toList ++
      ' ' :: (['='] ++ ' ' :: (Numeral.ofInt binding.value).toList) := by
    simp [text]
  rw [written, Text.words_append_blank_cons _ _ (by decide),
    Text.words_append_blank_cons _ _ (by decide),
    Text.words_eq_singleton (blankFree_of_isIdentifier named) nonempty,
    Text.words_eq_singleton (by decide) (by decide),
    Text.words_eq_singleton (Numeral.blankFree_ofInt _)
      (Numeral.toList_ofInt_ne_nil _)]
  rfl

theorem eq_of_text_eq
    {left right : Binding}
    (leftNamed : isIdentifier left.name.toList = true)
    (rightNamed : isIdentifier right.name.toList = true)
    (same : left.text = right.text) :
    left = right := by
  have words := words_text leftNamed
  rw [same, words_text rightNamed] at words
  simp only [List.cons.injEq, and_true, true_and] at words
  obtain ⟨names, values⟩ := words
  obtain ⟨name, value⟩ := left
  obtain rfl := String.toList_inj.mp names
  obtain rfl := Numeral.ofInt_injective (String.toList_inj.mp values)
  rfl

end Binding

namespace Report

theorem endOfSolution_notMem_bindings (solution : Solution) :
    endOfSolution ∉ solution.bindings.map Binding.text := by
  intro member
  obtain ⟨binding, _, same⟩ := List.mem_map.mp member
  exact absurd (same ▸ binding.blank_mem_text) (by decide)

/-- The lines of a solution are told from what follows. -/
theorem solutionLines_append_inj
    {left right : Solution}
    (leftNamed : left.Named)
    (rightNamed : right.Named)
    {rest others : List String}
    (same : solutionLines left ++ rest = solutionLines right ++ others) :
    left = right ∧ rest = others := by
  rw [solutionLines, solutionLines, List.append_assoc, List.append_assoc] at same
  obtain ⟨texts, rfl⟩ := append_cons_inj (endOfSolution_notMem_bindings left)
    (endOfSolution_notMem_bindings right) same
  have bindings : left.bindings = right.bindings := by
    apply eq_of_map_eq_map _ texts
    intro first firstMem second secondMem
    exact Binding.eq_of_text_eq (leftNamed first firstMem)
      (rightNamed second secondMem)
  obtain ⟨_⟩ := left
  obtain rfl := bindings
  exact ⟨rfl, rfl⟩

theorem flatMap_solutionLines_closing_inj
    {solutions others : List Solution}
    (named : ∀ solution ∈ solutions, solution.Named)
    (othersNamed : ∀ solution ∈ others, solution.Named)
    {complete otherComplete : Bool}
    (same : solutions.flatMap solutionLines ++ closing complete =
      others.flatMap solutionLines ++ closing otherComplete) :
    solutions = others ∧ complete = otherComplete := by
  -- The dashes at the end of a first solution are no closing line.
  have closed : ∀ complete, endOfSolution ∉ closing complete := by decide
  have dashes : ∀ (solution : Solution) rest,
      endOfSolution ∈ solutionLines solution ++ rest := by
    simp [solutionLines]
  induction solutions generalizing others with
  | nil =>
      cases others with
      | nil =>
          refine ⟨rfl, ?_⟩
          revert same
          revert complete otherComplete
          decide
      | cons other rest =>
          have member := dashes other
            (rest.flatMap solutionLines ++ closing otherComplete)
          rw [List.flatMap_cons, List.append_assoc] at same
          rw [← same] at member
          exact absurd member (closed complete)
  | cons solution rest inductionHypothesis =>
      rw [List.flatMap_cons, List.append_assoc] at same
      cases others with
      | nil =>
          have member := dashes solution
            (rest.flatMap solutionLines ++ closing complete)
          rw [same] at member
          exact absurd member (closed otherComplete)
      | cons other otherRest =>
          obtain ⟨firstNamed, restNamed⟩ := List.forall_mem_cons.mp named
          obtain ⟨otherNamed, otherRestNamed⟩ :=
            List.forall_mem_cons.mp othersNamed
          rw [List.flatMap_cons, List.append_assoc] at same
          obtain ⟨rfl, restSame⟩ :=
            solutionLines_append_inj firstNamed otherNamed same
          obtain ⟨rfl, rfl⟩ :=
            inductionHypothesis restNamed otherRestNamed restSame
          exact ⟨rfl, rfl⟩

theorem eq_of_enumerationLines_eq
    {solutions others : List Solution}
    (named : ∀ solution ∈ solutions, solution.Named)
    (othersNamed : ∀ solution ∈ others, solution.Named)
    {complete otherComplete : Bool}
    (same : enumerationLines solutions complete =
      enumerationLines others otherComplete) :
    solutions = others ∧ complete = otherComplete := by
  have unsolvable_iff : (solutions = [] ∧ complete = true) ↔
      (others = [] ∧ otherComplete = true) := by
    rw [← unsatisfiable_mem_enumerationLines_iff, same,
      unsatisfiable_mem_enumerationLines_iff]
  rcases enumerationLines_cases solutions complete with
    ⟨⟨rfl, rfl⟩, _⟩ | ⟨solvable, lines⟩
  · obtain ⟨rfl, rfl⟩ := unsolvable_iff.mp ⟨rfl, rfl⟩
    exact ⟨rfl, rfl⟩
  · rcases enumerationLines_cases others otherComplete with
      ⟨unsolvable, _⟩ | ⟨_, otherLines⟩
    · exact absurd (unsolvable_iff.mpr unsolvable) solvable
    · rw [lines, otherLines] at same
      exact flatMap_solutionLines_closing_inj named othersNamed same

theorem ne_empty_of_mem_enumerationLines
    {solutions : List Solution}
    {complete : Bool}
    {line : String}
    (member : line ∈ enumerationLines solutions complete) :
    line ≠ "" := by
  have visible : ∀ marker ∈ endOfSolution :: markers, marker ≠ "" := by decide
  rcases mem_enumerationLines_cases member with
    marker | ⟨solution, _, ofSolution⟩
  · exact visible line (.tail _ marker)
  · rcases List.mem_append.mp ofSolution with ofBinding | dashes
    · obtain ⟨binding, _, rfl⟩ := List.mem_map.mp ofBinding
      intro empty
      have blank := binding.blank_mem_text
      rw [empty] at blank
      contradiction
    · rw [List.mem_singleton.mp dashes]
      decide

/-- Equal reports have equal lines. -/
theorem enumerationLines_eq_of_ofEnumeration_eq
    {solutions others : List Solution}
    (named : ∀ solution ∈ solutions, solution.Named)
    (othersNamed : ∀ solution ∈ others, solution.Named)
    {complete otherComplete : Bool}
    (same : ofEnumeration solutions complete =
      ofEnumeration others otherComplete) :
    enumerationLines solutions complete =
      enumerationLines others otherComplete := by
  have sameMembers : ∀ line, line ≠ "" →
      (line ∈ enumerationLines solutions complete ↔
        line ∈ enumerationLines others otherComplete) := by
    intro line visible
    rw [← mem_lines_ofEnumeration_iff named visible, same,
      mem_lines_ofEnumeration_iff othersNamed visible]
  by_cases silent : enumerationLines solutions complete = []
  · rw [silent]
    symm
    apply List.eq_nil_iff_forall_not_mem.mpr
    intro line member
    have visible := ne_empty_of_mem_enumerationLines member
    rw [← sameMembers line visible, silent] at member
    contradiction
  · obtain ⟨line, member⟩ := List.exists_mem_of_ne_nil _ silent
    have visible := ne_empty_of_mem_enumerationLines member
    have lines := lines_ofEnumeration named silent
    rw [same, lines_ofEnumeration othersNamed
      (List.ne_nil_of_mem ((sameMembers line visible).mp member))] at lines
    apply List.map_injective_iff.mpr _ lines.symm
    intro first second
    exact String.toList_inj.mp

/-- Enumerations of named solutions have equal reports only if they found the same
solutions, in the same order, and were both finished or both not.  The line that
says that there is no solution is printed exactly for a finished enumeration
without one, and the line at the end of the search exactly for a finished one with
some. -/
theorem ofEnumeration_unambiguous
    {solutions : List Solution}
    (named : ∀ solution ∈ solutions, solution.Named)
    (complete : Bool) :
    (∀ others : List Solution, (∀ solution ∈ others, solution.Named) →
      ∀ otherComplete,
        (ofEnumeration solutions complete = ofEnumeration others otherComplete ↔
          solutions = others ∧ complete = otherComplete)) ∧
      (unsatisfiable.toList ∈
          Text.lines (ofEnumeration solutions complete ++ "\n").toList ↔
        solutions = [] ∧ complete = true) ∧
      (endOfSearch.toList ∈
          Text.lines (ofEnumeration solutions complete ++ "\n").toList ↔
        solutions ≠ [] ∧ complete = true) := by
  refine ⟨fun others othersNamed otherComplete => ⟨fun same => ?_, ?_⟩, ?_, ?_⟩
  · exact eq_of_enumerationLines_eq named othersNamed
      (enumerationLines_eq_of_ofEnumeration_eq named othersNamed same)
  · rintro ⟨rfl, rfl⟩
    rfl
  · rw [mem_lines_ofEnumeration_iff named (by decide),
      unsatisfiable_mem_enumerationLines_iff]
  · rw [mem_lines_ofEnumeration_iff named (by decide),
      endOfSearch_mem_enumerationLines_iff]

/-- Two bindings of one solution, before a solution without any, are told apart
from one binding in each of two solutions. -/
theorem ofEnumeration_unambiguous_regrouped :
    let together : List Solution := [⟨[⟨"x", 1⟩, ⟨"y", -2⟩]⟩, ⟨[]⟩]
    let apart : List Solution := [⟨[⟨"x", 1⟩]⟩, ⟨[⟨"y", -2⟩]⟩]
    (∀ solution ∈ together, solution.Named) ∧
      (∀ solution ∈ apart, solution.Named) ∧
      ofEnumeration together true ≠ ofEnumeration apart true ∧
      endOfSearch.toList ∈ Text.lines (ofEnumeration together true ++ "\n").toList ∧
      unsatisfiable.toList ∉
        Text.lines (ofEnumeration together true ++ "\n").toList := by
  intro together apart
  have named : ∀ solution ∈ together, solution.Named := by
    unfold Solution.Named
    decide
  have apartNamed : ∀ solution ∈ apart, solution.Named := by
    unfold Solution.Named
    decide
  obtain ⟨unambiguous, unsatisfiable_iff, endOfSearch_iff⟩ :=
    ofEnumeration_unambiguous named true
  have different : ¬(together = apart ∧ true = true) := by decide
  exact ⟨named, apartNamed, mt (unambiguous apart apartNamed true).mp different,
    endOfSearch_iff.mpr (by decide), mt unsatisfiable_iff.mp (by decide)⟩

end Report
end OrderEncoding

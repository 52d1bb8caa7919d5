import OrderEncoding.Proofs.Problem.WellFormed
import OrderEncoding.Proofs.Text.Lines
import OrderEncoding.Proofs.Text.Numerals
import OrderEncoding.Solving.Report

/-!
# Reports line by line

A report of an enumeration is printed with a line feed after it.  Its lines are
those of the solutions, a line for each binding and one of dashes; a line that
says that the search was finished comes last if it was, and nowhere else.
-/

namespace OrderEncoding

/-- Texts that are joined by a separator, and ended by it, are each ended by
it. -/
theorem intercalate_append_separator
    (separator : String)
    {texts : List String}
    (nonempty : texts ≠ []) :
    separator.intercalate texts ++ separator =
      String.join (texts.map (· ++ separator)) := by
  induction texts with
  | nil => contradiction
  | cons first rest inductionHypothesis =>
      rw [List.map_cons, String.join_cons]
      cases rest with
      | nil => simp
      | cons second others =>
          rw [← inductionHypothesis (List.cons_ne_nil _ _),
            String.intercalate_cons_of_ne_nil (List.cons_ne_nil _ _),
            String.append_assoc, String.append_assoc]

/-- The names of a solution are identifiers. -/
def Solution.Named (solution : Solution) : Prop :=
  ∀ binding ∈ solution.bindings, isIdentifier binding.name.toList = true

/-- The text of a binding stays on one line. -/
theorem Binding.unbroken_text
    {binding : Binding}
    (named : isIdentifier binding.name.toList = true) :
    Text.Unbroken binding.text.toList := by
  rw [text, String.toList_append, String.toList_append]
  exact ((blankFree_of_isIdentifier named).unbroken.append (by decide)).append
    (Numeral.blankFree_ofInt binding.value).unbroken

theorem Binding.blank_mem_text (binding : Binding) :
    ' ' ∈ binding.text.toList := by
  simp [text]

namespace Report

/-- The lines that say that a search was finished. -/
def markers : List String := [endOfSearch, unsatisfiable]

/-- The lines of a solution. -/
def solutionLines (solution : Solution) : List String :=
  solution.bindings.map Binding.text ++ [endOfSolution]

/-- The lines of an enumeration. -/
def enumerationLines
    (solutions : List Solution)
    (complete : Bool) : List String :=
  if solutions.isEmpty && complete then [unsatisfiable]
  else
    solutions.flatMap solutionLines ++ if complete then [endOfSearch] else []

theorem ofSolution_append_lineFeed (solution : Solution) :
    ofSolution solution ++ "\n" =
      String.join ((solutionLines solution).map (· ++ "\n")) := by
  simp [ofSolution, solutionLines, Function.comp_def, String.append_assoc]

theorem join_flatMap_solutionLines (solutions : List Solution) :
    String.join ((solutions.flatMap solutionLines).map (· ++ "\n")) =
      String.join ((solutions.map ofSolution).map (· ++ "\n")) := by
  induction solutions with
  | nil => rfl
  | cons solution rest inductionHypothesis =>
      rw [List.flatMap_cons, List.map_append, String.join_append,
        inductionHypothesis, ← ofSolution_append_lineFeed, List.map_cons,
        List.map_cons, String.join_cons]

/-- A report that says anything is made of its lines. -/
theorem ofEnumeration_append_lineFeed
    {solutions : List Solution}
    {complete : Bool}
    (nonempty : enumerationLines solutions complete ≠ []) :
    ofEnumeration solutions complete ++ "\n" =
      String.join ((enumerationLines solutions complete).map (· ++ "\n")) := by
  rw [enumerationLines] at nonempty ⊢
  rw [ofEnumeration]
  split
  next unsolvable => simp
  next others =>
    rw [if_neg others] at nonempty
    rw [List.map_append, String.join_append, join_flatMap_solutionLines,
      ← String.join_append, ← List.map_append]
    refine intercalate_append_separator "\n" fun empty => nonempty ?_
    rw [List.append_eq_nil_iff, List.map_eq_nil_iff] at empty
    rw [empty.1, empty.2]
    rfl

/-- A line of an enumeration is a marker or a line of a solution. -/
theorem mem_enumerationLines_cases
    {solutions : List Solution}
    {complete : Bool}
    {line : String}
    (member : line ∈ enumerationLines solutions complete) :
    line ∈ markers ∨ ∃ solution ∈ solutions, line ∈ solutionLines solution := by
  rw [enumerationLines] at member
  split at member
  next unsolvable =>
    rw [List.mem_singleton.mp member]
    exact .inl (by decide)
  next others =>
    rcases List.mem_append.mp member with ofSolution | marker
    · exact .inr (List.mem_flatMap.mp ofSolution)
    · split at marker
      next finished =>
        rw [List.mem_singleton.mp marker]
        exact .inl (by decide)
      next => cases marker

theorem unbroken_enumerationLines
    {solutions : List Solution}
    (named : ∀ solution ∈ solutions, solution.Named)
    {complete : Bool}
    {line : String}
    (member : line ∈ enumerationLines solutions complete) :
    Text.Unbroken line.toList := by
  rcases mem_enumerationLines_cases member with
    marker | ⟨solution, given, ofSolution⟩
  · have unbroken : ∀ marker ∈ markers, Text.Unbroken marker.toList := by decide
    exact unbroken line marker
  · rcases List.mem_append.mp ofSolution with ofBinding | dashes
    · obtain ⟨binding, bound, rfl⟩ := List.mem_map.mp ofBinding
      exact Binding.unbroken_text (named solution given binding bound)
    · rw [List.mem_singleton.mp dashes]
      decide

/-- The lines of a report are read back from what is printed. -/
theorem lines_ofEnumeration
    {solutions : List Solution}
    (named : ∀ solution ∈ solutions, solution.Named)
    {complete : Bool}
    (nonempty : enumerationLines solutions complete ≠ []) :
    Text.lines (ofEnumeration solutions complete ++ "\n").toList =
      (enumerationLines solutions complete).map String.toList := by
  rw [ofEnumeration_append_lineFeed nonempty]
  exact Text.lines_join fun line => unbroken_enumerationLines named

theorem enumerationLines_eq_nil_iff
    {solutions : List Solution}
    {complete : Bool} :
    enumerationLines solutions complete = [] ↔
      solutions = [] ∧ complete = false := by
  cases solutions with
  | nil => cases complete <;> simp [enumerationLines]
  | cons solution rest => simp [enumerationLines, solutionLines]

/-- No line of a solution is a marker: a binding has blanks around its sign. -/
theorem notMem_markers_of_mem_solutionLines
    {solution : Solution}
    {line : String}
    (member : line ∈ solutionLines solution) :
    line ∉ markers := by
  rcases List.mem_append.mp member with ofBinding | dashes
  · obtain ⟨binding, _, rfl⟩ := List.mem_map.mp ofBinding
    have solid : ∀ marker ∈ markers, ' ' ∉ marker.toList := by decide
    exact fun isMarker => solid _ isMarker binding.blank_mem_text
  · obtain rfl := List.mem_singleton.mp dashes
    decide

/-- What is printed has the lines of the enumeration, and an empty one if there are
none. -/
theorem mem_lines_ofEnumeration_iff
    {solutions : List Solution}
    (named : ∀ solution ∈ solutions, solution.Named)
    {complete : Bool}
    {line : String}
    (nonempty : line ≠ "") :
    line.toList ∈ Text.lines (ofEnumeration solutions complete ++ "\n").toList ↔
      line ∈ enumerationLines solutions complete := by
  by_cases silent : enumerationLines solutions complete = []
  · obtain ⟨rfl, rfl⟩ := enumerationLines_eq_nil_iff.mp silent
    have printed : Text.lines (ofEnumeration [] false ++ "\n").toList = [[]] := by
      decide
    rw [printed, silent, List.mem_singleton]
    exact iff_of_false (fun empty => nonempty (String.toList_inj.mp empty)) nofun
  · rw [lines_ofEnumeration named silent, List.mem_map]
    constructor
    · rintro ⟨other, member, same⟩
      exact String.toList_inj.mp same ▸ member
    · exact fun member => ⟨line, member, rfl⟩

/-! ## Markers -/

/-- The lines after the last solution of an enumeration that finds some. -/
def closing (complete : Bool) : List String :=
  if complete then [endOfSearch] else []

theorem enumerationLines_cases
    (solutions : List Solution)
    (complete : Bool) :
    ((solutions = [] ∧ complete = true) ∧
        enumerationLines solutions complete = [unsatisfiable]) ∨
      (¬(solutions = [] ∧ complete = true) ∧
        enumerationLines solutions complete =
          solutions.flatMap solutionLines ++ closing complete) := by
  by_cases unsolvable : solutions = [] ∧ complete = true
  · obtain ⟨rfl, rfl⟩ := unsolvable
    exact .inl ⟨⟨rfl, rfl⟩, rfl⟩
  · refine .inr ⟨unsolvable, ?_⟩
    rw [enumerationLines, if_neg (by simpa using unsolvable), closing]

theorem notMem_flatMap_solutionLines
    (solutions : List Solution)
    {marker : String}
    (isMarker : marker ∈ markers) :
    marker ∉ solutions.flatMap solutionLines := by
  intro member
  obtain ⟨solution, _, ofSolution⟩ := List.mem_flatMap.mp member
  exact notMem_markers_of_mem_solutionLines ofSolution isMarker

/-- Only an enumeration that was finished without a solution says that there is
none. -/
theorem unsatisfiable_mem_enumerationLines_iff
    {solutions : List Solution}
    {complete : Bool} :
    unsatisfiable ∈ enumerationLines solutions complete ↔
      solutions = [] ∧ complete = true := by
  have notClosing : ∀ complete, unsatisfiable ∉ closing complete := by decide
  rcases enumerationLines_cases solutions complete with
    ⟨unsolvable, lines⟩ | ⟨others, lines⟩
  · rw [lines]
    exact iff_of_true (.head _) unsolvable
  · rw [lines, List.mem_append,
      or_iff_right (notMem_flatMap_solutionLines solutions (by decide))]
    exact iff_of_false (notClosing complete) others

/-- An enumeration ends with the line of equals signs if it was finished and found
a solution. -/
theorem endOfSearch_mem_enumerationLines_iff
    {solutions : List Solution}
    {complete : Bool} :
    endOfSearch ∈ enumerationLines solutions complete ↔
      solutions ≠ [] ∧ complete = true := by
  have isClosing : ∀ complete,
      endOfSearch ∈ closing complete ↔ complete = true := by decide
  rcases enumerationLines_cases solutions complete with
    ⟨unsolvable, lines⟩ | ⟨others, lines⟩
  · rw [lines]
    exact iff_of_false (by decide) fun both => both.1 unsolvable.1
  · rw [lines, List.mem_append,
      or_iff_right (notMem_flatMap_solutionLines solutions (by decide)),
      isClosing]
    exact (and_iff_right_of_imp fun finished none => others ⟨none, finished⟩).symm

/-- A marker is printed if and only if the search was finished. -/
theorem exists_marker_mem_lines_iff
    {solutions : List Solution}
    (named : ∀ solution ∈ solutions, solution.Named)
    {complete : Bool} :
    (∃ marker ∈ markers, marker.toList ∈
      Text.lines (ofEnumeration solutions complete ++ "\n").toList) ↔
      complete = true := by
  simp only [markers, List.mem_cons, List.not_mem_nil, or_false,
    exists_eq_or_imp, exists_eq_left]
  rw [mem_lines_ofEnumeration_iff named (by decide),
    mem_lines_ofEnumeration_iff named (by decide),
    endOfSearch_mem_enumerationLines_iff, unsatisfiable_mem_enumerationLines_iff,
    ← or_and_right]
  exact and_iff_right (Classical.em (solutions = [])).symm

end Report
end OrderEncoding

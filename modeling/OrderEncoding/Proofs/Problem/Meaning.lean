import OrderEncoding.Proofs.Problem.Layout
import OrderEncoding.Proofs.Problem.Reading

/-!
# The meaning of the text of a problem

Reading keeps the meaning of a text.  The clauses that are written in a text
are those of the grammar of literals, one for each body in brackets; the problem
that is read holds exactly when each of them has a literal that holds.
-/

namespace OrderEncoding

namespace Written

/-- The literals of a clause are what is written in a body. -/
structure InBody (clause : List Literal) (body : List Char) : Prop where
  proper : ∀ literal ∈ clause, literal.Proper
  texts : Problem.literals body = clause.map Literal.text

/-- Some clauses are what is written between the brackets of a text. -/
def InText (clauses : List (List Literal)) (text : List Char) : Prop :=
  ∃ layout : Layout, layout.Proper ∧ layout.text = text ∧
    List.Forall₂ InBody clauses layout.bodies

end Written

namespace Problem

open Written (InBody InText)

/-- Taking the quotation marks off a word adds no blanks. -/
theorem blankFree_of_mem_literals
    {body literal : List Char}
    (member : literal ∈ literals body) :
    Text.BlankFree literal := by
  obtain ⟨word, wordMem, rfl⟩ :=
    List.mem_map.mp (List.mem_filter.mp member).1
  have free := Text.blankFree_of_mem_words wordMem
  intro character inTrimmed
  refine free character ?_
  have inReverse := (List.dropWhile_sublist _).subset
    (List.mem_reverse.mp inTrimmed)
  exact (List.dropWhile_sublist _).subset (List.mem_reverse.mp inReverse)

/-- A clause that is read is written in its body. -/
theorem exists_inBody_of_readClause
    {scope : List Variable}
    {body : List Char}
    {form : ConjunctiveForm}
    (reads : readClause scope body = .ok form) :
    ∃ clause, InBody clause body := by
  obtain ⟨_, forms, formsRead, _⟩ := readClause_eq_ok_iff.mp reads
  have free : ∀ literal ∈ literals body, Text.BlankFree literal :=
    fun literal member => blankFree_of_mem_literals member
  obtain ⟨clause, texts, proper⟩ := exists_map_eq_of_forall₂
    Written.Literal.text (fun literal _ => literal.Proper)
    (fun text form both => by
      obtain ⟨literal, proper, sameText⟩ :=
        DisjunctiveForm.exists_written_of_read both.1 both.2
      exact ⟨literal, sameText, proper⟩)
    ((List.forall₂_and_left _ _).mpr ⟨free, formsRead⟩)
  refine ⟨clause, fun literal member => ?_, texts.symm⟩
  obtain ⟨_, _, literalProper⟩ := exists_related_of_mem_left proper member
  exact literalProper

/-- A clause that is read holds when a literal of its body does. -/
theorem eval_of_readClause
    {scope : List Variable}
    {body : List Char}
    {form : ConjunctiveForm}
    (reads : readClause scope body = .ok form)
    {clause : List Written.Literal}
    (written : InBody clause body)
    (value : String → Int) :
    form.eval value = clause.any (Written.Literal.eval value) := by
  obtain ⟨nonempty, forms, formsRead, rfl⟩ := readClause_eq_ok_iff.mp reads
  rw [written.texts] at nonempty formsRead
  rw [List.forall₂_map_left_iff] at formsRead
  have formsNonempty : forms.map DisjunctiveForm.toConjunctive ≠ [] := by
    intro empty
    rw [List.map_eq_nil_iff] at empty
    rw [empty, List.forall₂_nil_right_iff] at formsRead
    exact nonempty (formsRead ▸ List.map_nil)
  have sameValues : clause.map (Written.Literal.eval value) =
      forms.map (DisjunctiveForm.eval value) :=
    map_eq_map_of_forall₂
      (fun literal form both =>
        (DisjunctiveForm.eval_of_read both.1 both.2 value).symm)
      ((List.forall₂_and_left _ _).mpr ⟨written.proper, formsRead⟩)
  calc (ConjunctiveForm.disjoinAll
        (forms.map DisjunctiveForm.toConjunctive)).eval value
      = forms.any (DisjunctiveForm.eval value) := by
        rw [ConjunctiveForm.eval_disjoinAll value formsNonempty, List.any_map]
        exact congrArg forms.any
          (funext fun form => DisjunctiveForm.eval_toConjunctive value form)
    _ = (forms.map (DisjunctiveForm.eval value)).any id := by
        rw [List.any_map, Function.id_comp]
    _ = clause.any (Written.Literal.eval value) := by
        rw [← sameValues, List.any_map, Function.id_comp]

/-- Reading a problem keeps the meaning of its text: some clauses are written in
it, and the problem holds exactly when every one of them has a literal that
holds. -/
theorem eval_iff_written
    {text : String}
    {problem : Problem}
    (accepted : Problem.read text = .ok problem) :
    (∃ clauses, InText clauses text.toList) ∧
      ∀ clauses, InText clauses text.toList →
        ∀ value : String → Int, problem.eval value = true ↔
          ∀ clause ∈ clauses, ∃ literal ∈ clause,
            literal.eval value = true := by
  obtain ⟨outline, outlines, _, clausesRead⟩ := read_eq_ok_iff.mp accepted
  obtain ⟨forms, formsRead, clausesEq⟩ := readClauses_eq_ok_iff.mp clausesRead
  constructor
  · obtain ⟨layout, proper, sameText⟩ := exists_layout outlines
    rw [← sameText, outline_text proper, Except.ok.injEq] at outlines
    subst outlines
    have written : ∀ body ∈ layout.bodies, ∃ clause, InBody clause body := by
      intro body member
      obtain ⟨_, _, reads⟩ := exists_related_of_mem_left formsRead member
      exact exists_inBody_of_readClause reads
    obtain ⟨clauses, inBodies⟩ := exists_forall₂ written
    exact ⟨clauses, layout, proper, sameText, inBodies.flip⟩
  · rintro clauses ⟨layout, proper, sameText, inBodies⟩ value
    rw [← sameText, outline_text proper, Except.ok.injEq] at outlines
    subst outlines
    have pairs : List.Forall₂
        (fun (clause : List Written.Literal) form =>
          clause.any (Written.Literal.eval value) =
            ConjunctiveForm.eval value form) clauses forms := by
      refine forall₂_trans ?_ inBodies formsRead
      intro clause body form inBody reads
      exact (eval_of_readClause reads inBody value).symm
    have sameValues : clauses.map (·.any (Written.Literal.eval value)) =
        forms.map (ConjunctiveForm.eval value) :=
      map_eq_map_of_forall₂ (fun _ _ same => same) pairs
    have allForms : problem.eval value =
        clauses.all (·.any (Written.Literal.eval value)) := by
      calc problem.eval value
          = forms.all (ConjunctiveForm.eval value) := by
            rw [Problem.eval, clausesEq, List.all_flatten]
            rfl
        _ = (forms.map (ConjunctiveForm.eval value)).all id := by
            rw [List.all_map, Function.id_comp]
        _ = clauses.all (·.any (Written.Literal.eval value)) := by
            rw [← sameValues, List.all_map, Function.id_comp]
    rw [allForms]
    simp only [List.all_eq_true, List.any_eq_true]

/-- Nested negations, merged terms and constants on both sides. -/
theorem eval_iff_written_negations :
    ∃ problem, Problem.read
        "x 0 3 [-(-(x+1>2*x-y)) '-(x=y)'] y -1 2 [3-x!=1]" = .ok problem ∧
      ∃ clauses, InText clauses
          "x 0 3 [-(-(x+1>2*x-y)) '-(x=y)'] y -1 2 [3-x!=1]".toList ∧
        ∀ value : String → Int, problem.eval value = true ↔
          ∀ clause ∈ clauses, ∃ literal ∈ clause,
            literal.eval value = true := by
  have accepted : (Problem.read
      "x 0 3 [-(-(x+1>2*x-y)) '-(x=y)'] y -1 2 [3-x!=1]").toBool = true := by
    decide +kernel
  cases reads : Problem.read
      "x 0 3 [-(-(x+1>2*x-y)) '-(x=y)'] y -1 2 [3-x!=1]" with
  | error failure =>
      rw [reads] at accepted
      contradiction
  | ok problem =>
      obtain ⟨⟨clauses, inText⟩, means⟩ := eval_iff_written reads
      exact ⟨problem, rfl, clauses, inText, means clauses inText⟩

end Problem
end OrderEncoding

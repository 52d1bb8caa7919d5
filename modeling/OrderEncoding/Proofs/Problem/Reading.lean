import OrderEncoding.Proofs.Problem.Declarations
import OrderEncoding.Proofs.Problem.Literals

/-!
# What reading a problem guarantees

A problem that is read is well formed, and its clauses hold when every body of
its text has a literal that holds.
-/

namespace OrderEncoding

namespace Problem

/-- Declarations that are read have names of their own. -/
theorem wellFormed_of_readDeclarations
    {declared : List String}
    {words : List (List Char)}
    {vars : List Variable}
    (reads : readDeclarations declared words = .ok vars) :
    (vars.map Variable.name).Nodup ∧ ∀ x ∈ vars, x.WellFormed := by
  obtain ⟨declarations, _, declares, nodup, _⟩ :=
    readDeclarations_eq_ok_iff.mp reads
  refine ⟨nodup, fun x member => ?_⟩
  obtain ⟨_, _, declaresX⟩ := exists_related_of_mem_right declares member
  exact declaresX.wellFormed

/-! ## Clauses -/

/-- When the body of a clause is read. -/
theorem readClause_eq_ok_iff
    {scope : List Variable}
    {body : List Char}
    {form : ConjunctiveForm} :
    readClause scope body = .ok form ↔
      literals body ≠ [] ∧ ∃ forms,
        List.Forall₂ (fun literal form => DisjunctiveForm.read scope literal =
          .ok form) (literals body) forms ∧
        form = ConjunctiveForm.disjoinAll
          (forms.map DisjunctiveForm.toConjunctive) := by
  rw [readClause]
  split
  · rename_i empty
    simp [empty]
  · rename_i nonempty
    rw [Results.bind_eq_ok_iff]
    simp only [Results.mapM_eq_ok_iff, Results.inContext_eq_ok_iff,
      Except.ok.injEq]
    constructor
    · rintro ⟨forms, reads, rfl⟩
      exact ⟨nonempty, forms, reads, rfl⟩
    · rintro ⟨_, forms, reads, rfl⟩
      exact ⟨forms, reads, rfl⟩

/-- When the bodies of clauses are read. -/
theorem readClauses_eq_ok_iff
    {scope : List Variable}
    {index : Nat}
    {bodies : List (List Char)}
    {clauses : List (List Inequality)} :
    readClauses scope index bodies = .ok clauses ↔
      ∃ forms, List.Forall₂ (fun body form => readClause scope body = .ok form)
        bodies forms ∧ clauses = forms.flatten := by
  induction bodies generalizing index clauses with
  | nil =>
      rw [readClauses, Except.ok.injEq]
      constructor
      · rintro rfl
        exact ⟨[], .nil, rfl⟩
      · rintro ⟨_, _ | _, rfl⟩
        rfl
  | cons body rest inductionHypothesis =>
      rw [readClauses, Results.bind_eq_ok_iff]
      simp only [Results.inContext_eq_ok_iff]
      constructor
      · rintro ⟨form, firstReads, reads⟩
        obtain ⟨others, restReads, reads⟩ := Results.bind_eq_ok_iff.mp reads
        obtain rfl := Except.ok.inj reads
        obtain ⟨forms, formsRead, rfl⟩ := inductionHypothesis.mp restReads
        exact ⟨form :: forms, .cons firstReads formsRead, rfl⟩
      · rintro ⟨_, _ | ⟨firstReads, formsRead⟩, rfl⟩
        refine ⟨_, firstReads, Results.bind_eq_ok_iff.mpr ⟨_, ?_, rfl⟩⟩
        exact inductionHypothesis.mpr ⟨_, formsRead, rfl⟩

/-- When a problem is read. -/
theorem read_eq_ok_iff
    {text : String}
    {problem : Problem} :
    read text = .ok problem ↔
      ∃ outline, Problem.outline text.toList = .ok outline ∧
        readDeclarations [] (Text.words outline.declarations) =
          .ok problem.vars ∧
        readClauses problem.vars 0 outline.bodies = .ok problem.clauses := by
  rw [read, Results.bind_eq_ok_iff]
  refine exists_congr fun outline => and_congr_right fun _ => ?_
  rw [Results.bind_eq_ok_iff]
  constructor
  · rintro ⟨vars, varsRead, reads⟩
    obtain ⟨clauses, clausesRead, reads⟩ := Results.bind_eq_ok_iff.mp reads
    obtain rfl := Except.ok.inj reads
    exact ⟨varsRead, clausesRead⟩
  · rintro ⟨varsRead, clausesRead⟩
    exact ⟨_, varsRead, Results.bind_eq_ok_iff.mpr ⟨_, clausesRead, rfl⟩⟩

theorem wellFormed_of_readClause
    {scope : List Variable}
    {body : List Char}
    {form : ConjunctiveForm}
    (reads : readClause scope body = .ok form) :
    ∀ clause ∈ form, WellFormedClause scope clause := by
  obtain ⟨_, forms, formsRead, rfl⟩ := readClause_eq_ok_iff.mp reads
  have clauses : ClausesOf (Inequality.WellFormed scope)
      (ConjunctiveForm.disjoinAll (forms.map DisjunctiveForm.toConjunctive)) := by
    apply ClausesOf.disjoinAll
    intro conjunctive member
    obtain ⟨form, formMem, rfl⟩ := List.mem_map.mp member
    obtain ⟨_, _, formReads⟩ := exists_related_of_mem_right formsRead formMem
    obtain ⟨nonempty, parts⟩ := DisjunctiveForm.nonemptyOf_of_read formReads
    exact parts.toConjunctive nonempty
  intro clause member
  obtain ⟨nonempty, inequalities⟩ := clauses.1 clause member
  exact ⟨nonempty, clauses.2 clause member, inequalities⟩

/-- A problem that is read is well formed. -/
theorem wellFormed_of_read
    {text : String}
    {problem : Problem}
    (reads : read text = .ok problem) :
    problem.WellFormed := by
  obtain ⟨outline, _, varsRead, clausesRead⟩ := read_eq_ok_iff.mp reads
  obtain ⟨nodup, varsWellFormed⟩ := wellFormed_of_readDeclarations varsRead
  refine ⟨nodup, varsWellFormed, ?_⟩
  intro clause member
  obtain ⟨forms, formsRead, clausesEq⟩ := readClauses_eq_ok_iff.mp clausesRead
  rw [clausesEq, List.mem_flatten] at member
  obtain ⟨form, formMem, inForm⟩ := member
  obtain ⟨_, _, formReads⟩ := exists_related_of_mem_right formsRead formMem
  exact wellFormed_of_readClause formReads clause inForm

end Problem
end OrderEncoding

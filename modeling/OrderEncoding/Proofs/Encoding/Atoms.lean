import OrderEncoding.Proofs.Encoding.Assembly
import OrderEncoding.Proofs.Problem.Reading

/-!
# The atoms of an encoding

The atoms of the formula of a problem are numbered in the order in which its
clauses bring them up.  They are the selectors of the problem's literals and, for
every variable, the order atoms from one below its domain to its greatest value:
no threshold of an encoded inequality lies outside of that range.
-/

namespace OrderEncoding
namespace Problem

theorem firstAppearances_formula (problem : Problem) :
    Formula.FirstAppearances problem.formula.atoms
      (Formula.appearances problem.formula.clauses) := by
  have listed : problem.formula.atoms =
      (Formula.appearances problem.cnf).eraseDups :=
    Formula.indexed_empty.atoms_foldl_addClause List.eraseDups_nil.symm
      problem.cnf
  rw [clauses_formula, listed]
  exact Formula.firstAppearances_eraseDups _

/-- The thresholds of an encoded inequality are of declared variables, and lie
between one below the domain and its greatest value. -/
theorem WellFormed.threshold_mem
    {problem : Problem}
    (wellFormed : problem.WellFormed)
    {clause : List Inequality}
    (clauseMem : clause ∈ problem.clauses)
    {inequality : Inequality}
    (inequalityMem : inequality ∈ clause)
    {form : ThresholdForm}
    (encodes : inequality.encode = .ok form)
    {disjunction : List Threshold}
    (disjunctionMem : disjunction ∈ form)
    {threshold : Threshold}
    (thresholdMem : threshold ∈ disjunction) :
    threshold.var ∈ problem.vars ∧
      threshold.var.lower - 1 ≤ threshold.bound ∧
      threshold.bound ≤ threshold.var.upper := by
  rw [inequality.encode_eq_ok, Except.ok.injEq] at encodes
  subst encodes
  have proper := (wellFormed.inequality clauseMem inequalityMem).form
  obtain ⟨term, termMem, sameVar, low, high⟩ :=
    Inequality.exists_term_of_mem_thresholdForm proper.nonzero disjunctionMem
      thresholdMem
  rw [sameVar]
  exact ⟨proper.declared term termMem, low, high⟩

/-- The encoding of a problem that is read has the atoms `p(x,c)` of its variables,
with `c` from one below the domain to its greatest value, and the selectors of its
literals, each once and no others, in the order of their first appearance in the
clauses.  No threshold of an encoded inequality is outside of these ranges. -/
theorem atoms_of_encode
    {text : String}
    {problem : Problem}
    (accepted : Problem.read text = .ok problem) :
    ∃ formula, problem.encode = .ok formula ∧
      formula.atoms.Nodup ∧
      (∀ atom, atom ∈ formula.atoms ↔
        (∃ x ∈ problem.vars, ∃ bound, x.lower - 1 ≤ bound ∧ bound ≤ x.upper ∧
          atom = .order x.name bound) ∨
        ∃ index clause position, problem.clauses[index]? = some clause ∧
          position < clause.length ∧ atom = .selector index position) ∧
      Formula.FirstAppearances formula.atoms
        (Formula.appearances formula.clauses) ∧
      ∀ clause ∈ problem.clauses, ∀ inequality ∈ clause, ∀ form,
        inequality.encode = .ok form →
        ∀ disjunction ∈ form, ∀ threshold ∈ disjunction,
          threshold.var ∈ problem.vars ∧
            threshold.var.lower - 1 ≤ threshold.bound ∧
            threshold.bound ≤ threshold.var.upper := by
  have wellFormed := wellFormed_of_read accepted
  have listed := problem.firstAppearances_formula
  refine ⟨problem.formula, problem.encode_eq_ok, listed.nodup,
    fun atom => mem_atoms_formula_iff wellFormed, listed, ?_⟩
  intro clause clauseMem inequality inequalityMem form encodes disjunction
    disjunctionMem threshold thresholdMem
  exact wellFormed.threshold_mem clauseMem inequalityMem encodes disjunctionMem
    thresholdMem

/-- With a negative coefficient and two literals, the atom at the lower end of the
second domain appears last. -/
theorem atoms_of_encode_negative_coefficient :
    ∃ problem, Problem.read "x 0 1 y 0 1 [x-2*y<=-1 y<=0]" = .ok problem ∧
      ∃ formula, problem.encode = .ok formula ∧
        formula.atoms =
          [.selector 0 0, .selector 0 1, .order "x" (-1), .order "y" 0,
            .order "x" 0, .order "x" 1, .order "y" 1, .order "y" (-1)] ∧
        formula.atoms.Nodup ∧
        Formula.FirstAppearances formula.atoms
          (Formula.appearances formula.clauses) := by
  let x : Variable := { name := "x", lower := 0, upper := 1 }
  let y : Variable := { name := "y", lower := 0, upper := 1 }
  let problem : Problem :=
    { vars := [x, y]
      clauses :=
        [[⟨{ monomials := [⟨x, 1⟩, ⟨y, -2⟩] }, -1, true⟩,
          ⟨.single ⟨y, 1⟩, 0, true⟩]] }
  have accepted : Problem.read "x 0 1 y 0 1 [x-2*y<=-1 y<=0]" = .ok problem := by
    decide +kernel
  have atoms : problem.encode.map Formula.atoms =
      .ok [.selector 0 0, .selector 0 1, .order "x" (-1), .order "y" 0,
        .order "x" 0, .order "x" 1, .order "y" 1, .order "y" (-1)] := by
    decide +kernel
  obtain ⟨formula, encodes, nodup, _, listed, _⟩ := atoms_of_encode accepted
  rw [encodes] at atoms
  exact ⟨problem, accepted, formula, encodes, Except.ok.inj atoms, nodup, listed⟩

end Problem
end OrderEncoding

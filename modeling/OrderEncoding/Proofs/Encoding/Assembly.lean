import OrderEncoding.Encoding.Assembly
import OrderEncoding.Proofs.Encoding.Axioms
import OrderEncoding.Proofs.Encoding.Linear
import OrderEncoding.Proofs.Formula.Registration

/-!
# The formula of a problem

Encoding a problem never fails.  Its formula holds the clauses of the problem's
constraints and those of its variables' axioms, and its atoms are the selectors
of the problem's literals and the order atoms from one below each domain to its
greatest value.
-/

namespace OrderEncoding

@[simp] theorem Clause.eval_ofThresholds
    (truth : Atom → Bool)
    (disjunction : List Threshold) :
    Clause.eval truth (Clause.ofThresholds disjunction) =
      disjunction.any (Threshold.holds truth) := by
  simp only [Clause.eval, Clause.ofThresholds, List.any_map]
  rfl

namespace Problem

/-- The clauses that stand for clauses of a problem, which always exist. -/
def constraintCnf (index : Nat) : List (List Inequality) → List Clause
  | [] => []
  | clause :: rest =>
    clauseClauses index (clause.map Inequality.thresholdForm) ++
      constraintCnf (index + 1) rest

/-- The clauses of the formula of a problem. -/
def cnf (problem : Problem) : List Clause :=
  constraintCnf 0 problem.clauses ++ problem.axiomClauses

/-- The formula of a problem. -/
def formula (problem : Problem) : Formula :=
  problem.cnf.foldl Formula.addClause {}

theorem constraintClauses_eq_ok
    (index : Nat)
    (clauses : List (List Inequality)) :
    constraintClauses index clauses = .ok (constraintCnf index clauses) := by
  induction clauses generalizing index with
  | nil => rfl
  | cons clause rest inductionHypothesis =>
      rw [constraintClauses, inductionHypothesis,
        Results.mapM_eq_ok_map fun inequality _ => inequality.encode_eq_ok]
      rfl

theorem encode_eq_ok (problem : Problem) :
    problem.encode = .ok problem.formula := by
  rw [encode, constraintClauses_eq_ok]
  rfl

@[simp] theorem clauses_formula (problem : Problem) :
    problem.formula.clauses = problem.cnf := by
  simp [formula]

theorem wellFormed_formula (problem : Problem) :
    problem.formula.WellFormed :=
  Formula.wellFormed_empty.foldl_addClause problem.cnf

theorem mem_atoms_formula
    {problem : Problem}
    {atom : Atom} :
    atom ∈ problem.formula.atoms ↔
      ∃ clause ∈ problem.cnf, atom ∈ clause.map Literal.atom := by
  simp [formula, Formula.indexed_empty.mem_atoms_foldl_addClause]

theorem mem_constraintCnf
    {index : Nat}
    {clauses : List (List Inequality)}
    {member : Clause} :
    member ∈ constraintCnf index clauses ↔
      ∃ offset clause, clauses[offset]? = some clause ∧
        member ∈ clauseClauses (index + offset)
          (clause.map Inequality.thresholdForm) := by
  induction clauses generalizing index with
  | nil => simp [constraintCnf]
  | cons first rest inductionHypothesis =>
      rw [constraintCnf, List.mem_append, inductionHypothesis]
      constructor
      · rintro (inFirst | ⟨offset, clause, found, inClause⟩)
        · exact ⟨0, first, rfl, inFirst⟩
        · refine ⟨offset + 1, clause, found, ?_⟩
          rwa [Nat.add_right_comm, Nat.add_assoc] at inClause
      · rintro ⟨_ | offset, clause, found, inClause⟩
        · obtain rfl := Option.some.inj found
          exact .inl inClause
        · refine .inr ⟨offset, clause, found, ?_⟩
          rwa [Nat.add_right_comm, Nat.add_assoc]

theorem mem_clauseClauses
    {index : Nat}
    {forms : List ThresholdForm}
    {member : Clause} :
    member ∈ clauseClauses index forms ↔
      member = selectionClause index forms.length ∨
        ∃ position form, forms[position]? = some form ∧
          ∃ disjunction ∈ form,
            { positive := false, atom := .selector index position } ::
              Clause.ofThresholds disjunction = member := by
  simp only [clauseClauses, List.mem_cons, List.mem_flatMap, Prod.exists,
    List.mem_zipIdx_iff_getElem?, selectedClauses, List.mem_map]
  apply or_congr_right
  rw [exists_comm]

/-- An order atom that the axioms of a variable speak of. -/
def OrderAtom (problem : Problem) (atom : Atom) : Prop :=
  ∃ x ∈ problem.vars, ∃ bound, x.lower - 1 ≤ bound ∧ bound ≤ x.upper ∧
    atom = .order x.name bound

/-- A selector of a literal of the problem. -/
def SelectorAtom (problem : Problem) (atom : Atom) : Prop :=
  ∃ index clause position, problem.clauses[index]? = some clause ∧
    position < clause.length ∧ atom = .selector index position

theorem mem_atoms_ofThresholds
    {disjunction : List Threshold}
    {atom : Atom} :
    atom ∈ (Clause.ofThresholds disjunction).map Literal.atom ↔
      ∃ threshold ∈ disjunction,
        atom = .order threshold.var.name threshold.bound := by
  simp only [Clause.ofThresholds, List.map_map, List.mem_map,
    Function.comp_apply, Threshold.toLiteral, eq_comm]

/-- The axioms speak of the order atoms from one below each domain to its
greatest value. -/
theorem exists_axiom_of_orderAtom
    {problem : Problem}
    {atom : Atom}
    (orderAtom : problem.OrderAtom atom) :
    ∃ clause ∈ problem.axiomClauses, atom ∈ clause.map Literal.atom := by
  obtain ⟨x, declared, bound, low, high, rfl⟩ := orderAtom
  obtain below | inside := Int.lt_or_le bound x.lower
  · obtain rfl : bound = x.lower - 1 := by omega
    refine ⟨_, List.mem_flatMap.mpr
      ⟨x, declared, List.mem_map.mpr ⟨_, .head _, rfl⟩⟩, ?_⟩
    rw [mem_atoms_ofThresholds]
    exact ⟨_, .head _, rfl⟩
  · refine ⟨_, List.mem_flatMap.mpr
      ⟨x, declared, List.mem_map.mpr ⟨x.monotone bound, .tail _ (.tail _
        (List.mem_map_of_mem (Variable.mem_domain.mpr ⟨inside, high⟩))),
          rfl⟩⟩, ?_⟩
    rw [mem_atoms_ofThresholds]
    exact ⟨x.atMost bound, .tail _ (.head _), rfl⟩

theorem orderAtom_of_mem_axiomClauses
    {problem : Problem}
    {clause : Clause}
    (member : clause ∈ problem.axiomClauses)
    {atom : Atom}
    (inClause : atom ∈ clause.map Literal.atom) :
    problem.OrderAtom atom := by
  obtain ⟨x, declared, inAxioms⟩ := List.mem_flatMap.mp member
  obtain ⟨disjunction, disjunctionMem, rfl⟩ := List.mem_map.mp inAxioms
  obtain ⟨threshold, thresholdMem, rfl⟩ := mem_atoms_ofThresholds.mp inClause
  have nonempty := x.lower_le_upper
  simp only [Variable.axioms, List.mem_cons, List.mem_map,
    Variable.mem_domain] at disjunctionMem
  rcases disjunctionMem with rfl | rfl | ⟨bound, ⟨low, high⟩, rfl⟩
  · obtain rfl := List.mem_singleton.mp thresholdMem
    exact ⟨x, declared, x.lower - 1, by omega, by omega, rfl⟩
  · obtain rfl := List.mem_singleton.mp thresholdMem
    exact ⟨x, declared, x.upper, by omega, by omega, rfl⟩
  · simp only [Variable.monotone, List.mem_cons, List.not_mem_nil,
      or_false] at thresholdMem
    rcases thresholdMem with rfl | rfl
    · exact ⟨x, declared, bound - 1, by omega, by omega, rfl⟩
    · exact ⟨x, declared, bound, by omega, by omega, rfl⟩

theorem atom_of_mem_constraintCnf
    {problem : Problem}
    (wellFormed : problem.WellFormed)
    {member : Clause}
    (memberMem : member ∈ constraintCnf 0 problem.clauses)
    {atom : Atom}
    (inMember : atom ∈ member.map Literal.atom) :
    problem.OrderAtom atom ∨ problem.SelectorAtom atom := by
  obtain ⟨index, clause, found, inClause⟩ := mem_constraintCnf.mp memberMem
  rw [Nat.zero_add] at inClause
  rcases mem_clauseClauses.mp inClause with
    rfl | ⟨position, form, formAt, disjunction, disjunctionMem, rfl⟩
  · rw [selectionClause, List.map_map, List.mem_map] at inMember
    obtain ⟨position, inRange, rfl⟩ := inMember
    rw [List.length_map, List.mem_range] at inRange
    exact .inr ⟨index, clause, position, found, inRange, rfl⟩
  · rw [List.getElem?_map, Option.map_eq_some_iff] at formAt
    obtain ⟨inequality, inequalityAt, rfl⟩ := formAt
    rw [List.map_cons, List.mem_cons] at inMember
    rcases inMember with rfl | inDisjunction
    · have inRange := (List.getElem?_eq_some_iff.mp inequalityAt).1
      exact .inr ⟨index, clause, position, found, inRange, rfl⟩
    · obtain ⟨threshold, thresholdMem, rfl⟩ :=
        mem_atoms_ofThresholds.mp inDisjunction
      have proper := wellFormed.inequality (List.mem_of_getElem? found)
        (List.mem_of_getElem? inequalityAt)
      obtain ⟨term, termMem, sameVar, low, high⟩ :=
        Inequality.exists_term_of_mem_thresholdForm proper.form.nonzero
          disjunctionMem thresholdMem
      rw [sameVar]
      exact .inl ⟨term.var, proper.form.declared term termMem,
        threshold.bound, low, high, rfl⟩

theorem exists_clause_of_selectorAtom
    {problem : Problem}
    {atom : Atom}
    (selectorAtom : problem.SelectorAtom atom) :
    ∃ clause ∈ constraintCnf 0 problem.clauses,
      atom ∈ clause.map Literal.atom := by
  obtain ⟨index, clause, position, found, inRange, rfl⟩ := selectorAtom
  refine ⟨selectionClause index clause.length,
    mem_constraintCnf.mpr ⟨index, clause, found, ?_⟩, ?_⟩
  · rw [Nat.zero_add, mem_clauseClauses, List.length_map]
    exact .inl rfl
  · rw [selectionClause, List.map_map, List.mem_map]
    exact ⟨position, List.mem_range.mpr inRange, rfl⟩

/-- The atoms of the formula are the selectors of the problem's literals and the
order atoms that the axioms speak of. -/
theorem mem_atoms_formula_iff
    {problem : Problem}
    (wellFormed : problem.WellFormed)
    {atom : Atom} :
    atom ∈ problem.formula.atoms ↔
      problem.OrderAtom atom ∨ problem.SelectorAtom atom := by
  simp only [mem_atoms_formula, cnf, List.mem_append]
  constructor
  · rintro ⟨clause, inConstraints | inAxioms, inClause⟩
    · exact atom_of_mem_constraintCnf wellFormed inConstraints inClause
    · exact .inl (orderAtom_of_mem_axiomClauses inAxioms inClause)
  · rintro (orderAtom | selectorAtom)
    · obtain ⟨clause, inAxioms, inClause⟩ :=
        exists_axiom_of_orderAtom orderAtom
      exact ⟨clause, .inr inAxioms, inClause⟩
    · obtain ⟨clause, inConstraints, inClause⟩ :=
        exists_clause_of_selectorAtom selectorAtom
      exact ⟨clause, .inl inConstraints, inClause⟩

end Problem
end OrderEncoding

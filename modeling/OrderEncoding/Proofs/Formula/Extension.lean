import OrderEncoding.Proofs.Formula.Numbering
import OrderEncoding.Proofs.Formula.Registration

/-!
# Formulas with more clauses

The truth of a formula depends on its registered atoms only, and a clause over
these can be added at any time.
-/

namespace OrderEncoding

/-- The truth of a clause depends on its atoms only. -/
theorem Clause.eval_congr
    {clause : Clause}
    {truth other : Atom → Bool}
    (agree : ∀ literal ∈ clause, truth literal.atom = other literal.atom) :
    Clause.eval truth clause = Clause.eval other clause := by
  rw [Bool.eq_iff_iff, eval, eval, List.any_eq_true, List.any_eq_true]
  refine exists_congr fun literal => and_congr_right fun member => ?_
  rw [Literal.eval, Literal.eval, agree literal member]

namespace Formula

/-- The truth of a formula depends on its registered atoms only. -/
theorem WellFormed.eval_congr
    {formula : Formula}
    (wellFormed : formula.WellFormed)
    {truth other : Atom → Bool}
    (agree : ∀ atom ∈ formula.atoms, truth atom = other atom) :
    formula.eval truth = formula.eval other := by
  rw [Bool.eq_iff_iff, eval, eval, List.all_eq_true, List.all_eq_true]
  apply forall₂_congr
  intro clause clauseMem
  rw [Clause.eval_congr fun literal member =>
    agree _ (wellFormed.registered clause clauseMem literal member)]

/-- A formula with one more clause. -/
def withClause (formula : Formula) (clause : Clause) : Formula :=
  { formula with clauses := formula.clauses ++ [clause] }

@[simp] theorem eval_withClause
    (formula : Formula)
    (clause : Clause)
    (truth : Atom → Bool) :
    (formula.withClause clause).eval truth =
      (formula.eval truth && Clause.eval truth clause) := by
  simp [eval, withClause]

theorem Indexed.withClause
    {formula : Formula}
    (indexed : formula.Indexed)
    (clause : Clause) :
    (formula.withClause clause).Indexed :=
  ⟨indexed.nodup, indexed.numbers⟩

theorem WellFormed.withClause
    {formula : Formula}
    (wellFormed : formula.WellFormed)
    {clause : Clause}
    (registered : ∀ literal ∈ clause, literal.atom ∈ formula.atoms) :
    (formula.withClause clause).WellFormed := by
  refine ⟨wellFormed.toIndexed.withClause clause, ?_⟩
  intro member memberMem
  rcases List.mem_append.mp memberMem with old | new
  · exact wellFormed.registered member old
  · exact List.mem_singleton.mp new ▸ registered

/-- A clause over registered atoms is added without a failure. -/
theorem Indexed.addRegisteredClause_eq_ok
    {formula : Formula}
    (indexed : formula.Indexed)
    {clause : Clause}
    (registered : ∀ literal ∈ clause, literal.atom ∈ formula.atoms) :
    formula.addRegisteredClause clause = .ok (formula.withClause clause) := by
  have numbers : clause.mapM (fun literal => formula.numberOf literal.atom) =
      .ok (clause.map fun literal => formula.atoms.idxOf literal.atom + 1) :=
    Results.mapM_eq_ok_map fun literal member =>
      indexed.numberOf_eq_ok (registered literal member)
  exact Results.bind_eq_ok_iff.mpr ⟨_, numbers, rfl⟩

end Formula
end OrderEncoding

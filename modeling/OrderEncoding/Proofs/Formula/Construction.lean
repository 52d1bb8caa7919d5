import Mathlib.Logic.Relation
import OrderEncoding.Proofs.Formula.Extension
import OrderEncoding.Proofs.Pairings

/-!
# Formulas that are built

A formula is built from the empty one by registering atoms, by adding clauses
together with their atoms, and by adding clauses whose atoms are registered
already.  In a formula that is built, every atom has one number and every clause
is over numbered atoms.
-/

namespace OrderEncoding
namespace Formula

/-- A step by which a formula is built. -/
inductive Grows : Formula → Formula → Prop
  | register
      (formula : Formula)
      (atom : Atom) :
      Grows formula (formula.register atom)
  | addClause
      (formula : Formula)
      (clause : Clause) :
      Grows formula (formula.addClause clause)
  | addRegisteredClause
      {formula next : Formula}
      {clause : Clause}
      (adds : formula.addRegisteredClause clause = .ok next) :
      Grows formula next

/-- A formula is built when steps lead to it from the empty formula. -/
def Built (formula : Formula) : Prop :=
  Relation.ReflTransGen Grows {} formula

theorem Indexed.mem_atoms_of_numberOf
    {formula : Formula}
    (indexed : formula.Indexed)
    {atom : Atom}
    {number : Nat}
    (numbered : formula.numberOf atom = .ok number) :
    atom ∈ formula.atoms := by
  by_contra unregistered
  simp only [numberOf, indexed.lookup_numbers, if_neg unregistered] at numbered
  contradiction

/-- A clause is added without new atoms when it is over registered ones. -/
theorem Indexed.addRegisteredClause_eq_ok_iff
    {formula next : Formula}
    (indexed : formula.Indexed)
    {clause : Clause} :
    formula.addRegisteredClause clause = .ok next ↔
      (∀ literal ∈ clause, literal.atom ∈ formula.atoms) ∧
        next = formula.withClause clause := by
  constructor
  · intro adds
    obtain ⟨numbers, numbered, added⟩ := Results.bind_eq_ok_iff.mp adds
    refine ⟨fun literal member => ?_, (Except.ok.inj added).symm⟩
    obtain ⟨_, _, hasNumber⟩ :=
      exists_related_of_mem_left (Results.mapM_eq_ok_iff.mp numbered) member
    exact indexed.mem_atoms_of_numberOf hasNumber
  · rintro ⟨registered, rfl⟩
    exact indexed.addRegisteredClause_eq_ok registered

theorem WellFormed.register
    {formula : Formula}
    (wellFormed : formula.WellFormed)
    (atom : Atom) :
    (formula.register atom).WellFormed := by
  refine ⟨wellFormed.toIndexed.register atom, ?_⟩
  intro clause member literal literalMem
  rw [clauses_register] at member
  exact wellFormed.mem_atoms_register.mpr
    (.inl (wellFormed.registered clause member literal literalMem))

/-- Every step keeps a formula well-formed. -/
theorem WellFormed.grows
    {formula next : Formula}
    (wellFormed : formula.WellFormed)
    (grows : Grows formula next) :
    next.WellFormed := by
  cases grows with
  | register atom => exact wellFormed.register atom
  | addClause clause => exact wellFormed.foldl_addClause [clause]
  | addRegisteredClause adds =>
      obtain ⟨registered, rfl⟩ := wellFormed.addRegisteredClause_eq_ok_iff.mp adds
      exact wellFormed.withClause registered

theorem Built.wellFormed
    {formula : Formula}
    (built : formula.Built) :
    formula.WellFormed := by
  induction built with
  | refl => exact wellFormed_empty
  | tail _ grows inductionHypothesis => exact inductionHypothesis.grows grows

end Formula
end OrderEncoding

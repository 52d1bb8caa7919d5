import OrderEncoding.Problem.Basic
import OrderEncoding.Problem.Side

/-!
# Well-formed problems

What reading guarantees of a problem: its variables have distinct names and
domains of machine integers, and its clauses are nonempty disjunctions of
distinct inequalities over those variables, whose linear forms are gathered and
representable.
-/

namespace OrderEncoding

namespace LinearForm

/-- No coefficient of the form is zero. -/
def Nonzero (form : LinearForm) : Prop :=
  ∀ term ∈ form.monomials, term.coefficient ≠ 0

/-- Every variable of the form has a value of its domain. -/
def Inside (form : LinearForm) (value : String → Int) : Prop :=
  ∀ term ∈ form.monomials, term.var.Contains (value term.var.name)

/-- A form is well formed over variables when it is a gathered sum of them whose
coefficients and values, and those of its negation, are machine integers. -/
structure WellFormed (scope : List Variable) (form : LinearForm) : Prop where
  declared : ∀ term ∈ form.monomials, term.var ∈ scope
  fits : ∀ term ∈ form.monomials, Word.Fits term.coefficient
  names_nodup : (form.monomials.map (·.var.name)).Nodup
  nonzero : form.Nonzero
  representable : ∀ term ∈ form.monomials, term.Representable
  reach_le : form.reach ≤ Word.greatest

end LinearForm

/-- An inequality is well formed when its form is and its bound is a machine
integer. -/
structure Inequality.WellFormed
    (scope : List Variable)
    (inequality : Inequality) : Prop where
  form : inequality.form.WellFormed scope
  bound_fits : Word.Fits inequality.bound

theorem Inequality.WellFormed.negated
    {scope : List Variable}
    {inequality : Inequality}
    (wellFormed : inequality.WellFormed scope) :
    inequality.negated.WellFormed scope :=
  ⟨wellFormed.form, wellFormed.bound_fits⟩

/-- A variable is well formed when it has a proper name and the integers from
one below its domain to its greatest value are machine integers. -/
structure Variable.WellFormed (x : Variable) : Prop where
  identifier : isIdentifier x.name.toList = true
  least_lt_lower : Word.least < x.lower
  upper_le_greatest : x.upper ≤ Word.greatest

/-- A clause is well formed when it is a nonempty disjunction of distinct
well-formed inequalities. -/
structure WellFormedClause
    (scope : List Variable)
    (clause : List Inequality) : Prop where
  nonempty : clause ≠ []
  nodup : clause.Nodup
  inequalities : ∀ inequality ∈ clause, inequality.WellFormed scope

namespace Problem

/-- What reading guarantees of a problem. -/
structure WellFormed (problem : Problem) : Prop where
  names_nodup : (problem.vars.map Variable.name).Nodup
  vars : ∀ x ∈ problem.vars, x.WellFormed
  clauses : ∀ clause ∈ problem.clauses, WellFormedClause problem.vars clause

/-- Every declared variable has a value of its domain. -/
def Inside (problem : Problem) (value : String → Int) : Prop :=
  ∀ x ∈ problem.vars, x.Contains (value x.name)

theorem WellFormed.inequality
    {problem : Problem}
    (wellFormed : problem.WellFormed)
    {clause : List Inequality}
    (clauseMem : clause ∈ problem.clauses)
    {inequality : Inequality}
    (inequalityMem : inequality ∈ clause) :
    inequality.WellFormed problem.vars :=
  (wellFormed.clauses clause clauseMem).inequalities inequality inequalityMem

theorem Inside.form
    {problem : Problem}
    {value : String → Int}
    (inside : problem.Inside value)
    {form : LinearForm}
    (wellFormed : form.WellFormed problem.vars) :
    form.Inside value :=
  fun term member => inside term.var (wellFormed.declared term member)

end Problem
end OrderEncoding

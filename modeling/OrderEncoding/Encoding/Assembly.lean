import OrderEncoding.Encoding.Axioms
import OrderEncoding.Formula
import OrderEncoding.Problem.Basic

/-!
# Encoding a problem

Clause `k` of a problem gives one selector `q(k,i)` for each of its inequalities:
some selector of the clause is true, and a true selector implies every
disjunction of the encoding of its inequality.  The axioms of the variables come
last.
-/

namespace OrderEncoding

/-- The clause with the literals of a disjunction of thresholds. -/
def Clause.ofThresholds (disjunction : List Threshold) : Clause :=
  disjunction.map Threshold.toLiteral

namespace Problem

/-- The clause by which some inequality of a problem's clause is selected. -/
def selectionClause (index size : Nat) : Clause :=
  (List.range size).map fun position =>
    { positive := true, atom := .selector index position }

/-- The clauses by which a selected inequality implies its encoding. -/
def selectedClauses
    (index position : Nat)
    (form : ThresholdForm) :
    List Clause :=
  form.map fun disjunction =>
    { positive := false, atom := .selector index position } ::
      Clause.ofThresholds disjunction

/-- The clauses that stand for one clause of a problem. -/
def clauseClauses (index : Nat) (forms : List ThresholdForm) : List Clause :=
  selectionClause index forms.length ::
    forms.zipIdx.flatMap fun (form, position) =>
      selectedClauses index position form

/-- The clauses that stand for the clauses of a problem, which are numbered
from the given index. -/
def constraintClauses
    (index : Nat) :
    List (List Inequality) → Except Failure (List Clause)
  | [] => .ok []
  | clause :: rest => do
    let forms ← inContext (.encodingClause index (clauseText clause))
      (clause.mapM Inequality.encode)
    let others ← constraintClauses (index + 1) rest
    .ok (clauseClauses index forms ++ others)

/-- The clauses that stand for the domains of the variables. -/
def axiomClauses (problem : Problem) : List Clause :=
  problem.vars.flatMap fun x => x.axioms.map Clause.ofThresholds

/-- The formula that encodes a problem. -/
def encode (problem : Problem) : Except Failure Formula := do
  let constraints ← constraintClauses 0 problem.clauses
  .ok ((constraints ++ problem.axiomClauses).foldl Formula.addClause {})

end Problem
end OrderEncoding

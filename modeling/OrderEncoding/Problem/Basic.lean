import OrderEncoding.Choices
import OrderEncoding.Inequality
import OrderEncoding.Solution

/-!
# Constraint problems

A problem declares integer variables and demands that each of its clauses holds,
where a clause is a disjunction of inequalities.
-/

namespace OrderEncoding

/-- Integer variables and clauses of inequalities over them. -/
structure Problem where
  vars : List Variable := []
  clauses : List (List Inequality) := []
deriving DecidableEq, Repr

namespace Problem

/-- The text of a clause. -/
def clauseText (clause : List Inequality) : String :=
  " ".intercalate (clause.map Inequality.text)

/-- The text of a problem: its declarations, then its clauses in brackets. -/
def text (problem : Problem) : String :=
  " ".intercalate
    (problem.vars.map Variable.declaration ++
      problem.clauses.map fun clause => "[" ++ clauseText clause ++ "]")

/-- The variable of the given name. -/
def find? (problem : Problem) (name : String) : Option Variable :=
  problem.vars.find? (·.name = name)

/-- Whether every clause has an inequality that holds when the variable `x` has
the value `value x`. -/
def eval (value : String → Int) (problem : Problem) : Bool :=
  problem.clauses.all fun clause => clause.any (Inequality.eval value)

/-- Every assignment of values of the domains, in lexicographic order. -/
def assignments (problem : Problem) : List Solution :=
  (choices (problem.vars.map fun x =>
    x.domain.map (Binding.mk x.name))).map Solution.mk

/-- Every assignment within the domains that satisfies all clauses. -/
def solutions (problem : Problem) : List Solution :=
  problem.assignments.filter fun solution => problem.eval solution.valuation

end Problem
end OrderEncoding

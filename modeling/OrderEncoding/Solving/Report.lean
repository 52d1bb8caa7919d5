import OrderEncoding.Solution

/-!
# Reports

The text that is printed for a single answer and for an enumeration.  A solution
is one binding a line and a line of dashes.  A finished enumeration ends with a
line of equals signs, and one that finds nothing says that the problem is
unsatisfiable.
-/

namespace OrderEncoding

/-- The answer to one solver call. -/
inductive Outcome where
  | satisfiable (solution : Solution)
  | unsatisfiable
deriving DecidableEq, Repr

namespace Report

/-- The report that a problem has no solution. -/
def unsatisfiable : String := "=====UNSATISFIABLE====="

/-- The line at the end of a solution. -/
def endOfSolution : String := "----------"

/-- The line at the end of a finished search. -/
def endOfSearch : String := "=========="

/-- The report of a solution. -/
def ofSolution (solution : Solution) : String :=
  String.join (solution.bindings.map fun binding => binding.text ++ "\n") ++
    endOfSolution

/-- The report of an answer. -/
def ofOutcome : Outcome → String
  | .satisfiable solution => ofSolution solution
  | .unsatisfiable => unsatisfiable

/-- The report of an enumeration; `complete` says that the search was
finished. -/
def ofEnumeration (solutions : List Solution) (complete : Bool) : String :=
  if solutions.isEmpty && complete then unsatisfiable
  else
    "\n".intercalate
      (solutions.map ofSolution ++ if complete then [endOfSearch] else [])

end Report
end OrderEncoding

import OrderEncoding.Encoding.Assembly

/-!
# Encoding in a given arithmetic

The encoding of a problem, one integer operation after the other.  What becomes
of an integer that is computed is left open: `hold` may leave it as it is, wrap
it around to a machine integer, or refuse one that is none.  The tuples of a sum
are searched for breadth first, with tables of the sums that the ranges after a
position can reach.
-/

namespace OrderEncoding

namespace Word

/-- The machine integer that a result is wrapped around to. -/
def wrap (value : Int) : Int :=
  value.bmod (greatestCount + 1)

end Word

variable {m : Type → Type} [Monad m] (hold : Int → m Int)

/-- The sum of integers, added up from the left. -/
def totalWith (values : List Int) : m Int :=
  values.foldlM (fun sum value => hold (sum + value)) 0

namespace Monomial

/-- The monomial with the opposite coefficient. -/
def negatedWith (term : Monomial) : m Monomial := do
  let coefficient ← hold (-term.coefficient)
  return { term with coefficient }

/-- The least value of a monomial. -/
def lowerWith (term : Monomial) : m Int :=
  if 0 < term.coefficient then hold (term.coefficient * term.var.lower)
  else hold (term.coefficient * term.var.upper)

/-- The greatest value of a monomial. -/
def upperWith (term : Monomial) : m Int :=
  if 0 < term.coefficient then hold (term.coefficient * term.var.upper)
  else hold (term.coefficient * term.var.lower)

/-- The range of the bounds that the encoding compares a monomial with. -/
def rangeWith (term : Monomial) : m (Int × Int) := do
  let lower ← term.lowerWith hold
  let below ← hold (lower - 1)
  let upper ← term.upperWith hold
  return (below, upper)

/-- The value of a monomial. -/
def evalWith (value : String → Int) (term : Monomial) : m Int :=
  hold (term.coefficient * value term.var.name)

end Monomial

namespace LinearForm

/-- The form with the opposite coefficients. -/
def negatedWith (form : LinearForm) : m LinearForm := do
  let monomials ← form.monomials.mapM (Monomial.negatedWith hold)
  return { monomials }

/-- The least value of a form. -/
def lowerWith (form : LinearForm) : m Int := do
  totalWith hold (← form.monomials.mapM (Monomial.lowerWith hold))

/-- The greatest value of a form. -/
def upperWith (form : LinearForm) : m Int := do
  totalWith hold (← form.monomials.mapM (Monomial.upperWith hold))

/-- The value of a form. -/
def evalWith (value : String → Int) (form : LinearForm) : m Int := do
  totalWith hold (← form.monomials.mapM (Monomial.evalWith hold value))

end LinearForm

namespace Encoding

/-- A range with the least and the greatest sum of the ranges after it. -/
structure Stage where
  range : Int × Int
  least : Int
  greatest : Int

/-- The stages of a search through ranges, and the least and the greatest sum of
all of them. -/
def stagesWith : List (Int × Int) → m (List Stage × Int × Int)
  | [] => return ([], 0, 0)
  | range :: rest => do
    let (stages, least, greatest) ← stagesWith rest
    let allLeast ← hold (least + range.1)
    let allGreatest ← hold (greatest + range.2)
    return ({ range, least, greatest } :: stages, allLeast, allGreatest)

/-- The beginning of a tuple, with its sum. -/
structure Beginning where
  elements : List Int
  sum : Int

/-- A beginning with one more element, unless the target is out of reach then. -/
def extendWith
    (target : Int)
    (stage : Stage)
    (beginning : Beginning)
    (value : Int) :
    m (Option Beginning) := do
  let sum ← hold (beginning.sum + value)
  let least ← hold (sum + stage.least)
  if target < least then return none
  let greatest ← hold (sum + stage.greatest)
  if greatest < target then return none
  return some { elements := beginning.elements ++ [value], sum }

/-- All beginnings with one more element that can still reach the target. -/
def advanceWith
    (target : Int)
    (beginnings : List Beginning)
    (stage : Stage) :
    m (List Beginning) := do
  let extended ← beginnings.mapM fun beginning =>
    (Interval.values stage.range.1 stage.range.2).mapM
      (extendWith hold target stage beginning)
  return extended.flatMap List.reduceOption

/-- The tuples of the ranges with the given sum, by a search breadth first. -/
def tuplesWith (ranges : List (Int × Int)) (target : Int) : m (List (List Int)) := do
  let (stages, _) ← stagesWith hold ranges
  let beginnings ← stages.foldlM (advanceWith hold target) [⟨[], 0⟩]
  return (beginnings.filter (·.sum = target)).map Beginning.elements

end Encoding

namespace Threshold

/-- The threshold that says that a monomial is at most a bound. -/
def ofMonomialWith (term : Monomial) (bound : Int) : m Threshold := do
  if 0 < term.coefficient then
    let quotient ← hold (bound.fdiv term.coefficient)
    return { var := term.var, bound := quotient }
  else
    let quotient ← hold (-(bound.fdiv (-term.coefficient)))
    let below ← hold (quotient - 1)
    return { var := term.var, bound := below, positive := false }

end Threshold

namespace LinearForm

/-- The encoding of the inequality that a form is at most a bound. -/
def encodeAtMostWith (form : LinearForm) (bound : Int) : m ThresholdForm := do
  if form.monomials.isEmpty then
    return if 0 ≤ bound then [] else [[]]
  let lower ← form.lowerWith hold
  if bound < lower then return [[]]
  let size ← hold form.monomials.length
  let below ← hold (bound - size)
  let target ← hold (below + 1)
  let ranges ← form.monomials.mapM (Monomial.rangeWith hold)
  let tuples ← Encoding.tuplesWith hold ranges target
  tuples.mapM fun bounds =>
    (form.monomials.zip bounds).mapM fun pair =>
      Threshold.ofMonomialWith hold pair.1 pair.2

end LinearForm

namespace Inequality

/-- The encoding of an inequality, with no disjunction repeated. -/
def encodeWith (inequality : Inequality) : m ThresholdForm := do
  if inequality.positive then
    let form ← inequality.form.encodeAtMostWith hold inequality.bound
    return form.distinct
  else
    let opposite ← inequality.form.negatedWith hold
    let bound ← hold (-1 - inequality.bound)
    let form ← opposite.encodeAtMostWith hold bound
    return form.distinct

/-- Whether an inequality holds. -/
def evalWith (value : String → Int) (inequality : Inequality) : m Bool := do
  let sum ← inequality.form.evalWith hold value
  return decide (sum ≤ inequality.bound) == inequality.positive

end Inequality

namespace Variable

/-- The axioms of a variable. -/
def axiomsWith (x : Variable) : m ThresholdForm := do
  let below ← hold (x.lower - 1)
  let steps ← x.domain.mapM fun bound => do
    let previous ← hold (bound - 1)
    return [(x.atMost previous).negated, x.atMost bound]
  return [(x.atMost below).negated] :: [x.atMost x.upper] :: steps

end Variable

namespace Problem

/-- The clauses that stand for the clauses of a problem, which are numbered from
the given index. -/
def constraintClausesWith (index : Nat) :
    List (List Inequality) → m (List Clause)
  | [] => return []
  | clause :: rest => do
    let forms ← clause.mapM (Inequality.encodeWith hold)
    let others ← constraintClausesWith (index + 1) rest
    return clauseClauses index forms ++ others

/-- The formula that encodes a problem.  If all integers are left as they are, this
is `encode` (`encode_eq_ok_encodeWith`). -/
def encodeWith (problem : Problem) : m Formula := do
  let constraints ← constraintClausesWith hold 0 problem.clauses
  let axioms ← problem.vars.mapM (Variable.axiomsWith hold)
  let clauses := constraints ++ axioms.flatMap (·.map Clause.ofThresholds)
  return clauses.foldl Formula.addClause {}

end Problem
end OrderEncoding

import OrderEncoding.LinearForm

/-!
# Inequalities and thresholds

An inequality compares a linear form with a bound, `e <= c`, or negates that
comparison.  A threshold does the same with a single variable, `x <= c`; it is
what an order atom stands for.  An inequality of one term is a threshold of its
variable.
-/

namespace OrderEncoding

/-- The text of the comparison of a left side with a bound. -/
def comparisonText (left : String) (bound : Int) (positive : Bool) : String :=
  if positive then left ++ "<=" ++ Numeral.ofInt bound
  else "-(" ++ left ++ "<=" ++ Numeral.ofInt bound ++ ")"

/-- The comparison `form <= bound`, or its negation when not positive. -/
structure Inequality where
  form : LinearForm
  bound : Int
  positive : Bool := true
deriving DecidableEq, Repr

/-- The comparison `var <= bound`, or its negation when not positive. -/
structure Threshold where
  var : Variable
  bound : Int
  positive : Bool := true
deriving DecidableEq, Repr

namespace Threshold

/-- The text of a threshold. -/
def text (threshold : Threshold) : String :=
  comparisonText threshold.var.name threshold.bound threshold.positive

/-- The opposite threshold. -/
def negated (threshold : Threshold) : Threshold :=
  { threshold with positive := !threshold.positive }

/-- Whether a threshold holds when its variable has the given value. -/
def eval (value : Int) (threshold : Threshold) : Bool :=
  decide (value ≤ threshold.bound) == threshold.positive

/-- The threshold that says that a monomial is at most a bound.  Dividing by a
negative coefficient turns the comparison round. -/
def ofMonomial (term : Monomial) (bound : Int) : Threshold :=
  if 0 < term.coefficient then
    { var := term.var
      bound := bound.fdiv term.coefficient }
  else
    { var := term.var
      bound := -(bound.fdiv (-term.coefficient)) - 1
      positive := false }

end Threshold

namespace Inequality

/-- The text of an inequality. -/
def text (inequality : Inequality) : String :=
  comparisonText inequality.form.text inequality.bound inequality.positive

/-- The opposite inequality. -/
def negated (inequality : Inequality) : Inequality :=
  { inequality with positive := !inequality.positive }

/-- Whether an inequality holds when the variable `x` has the value
`value x`. -/
def eval (value : String → Int) (inequality : Inequality) : Bool :=
  decide (inequality.form.eval value ≤ inequality.bound) ==
    inequality.positive

/-- The threshold that an inequality of exactly one term amounts to. -/
def toThreshold (inequality : Inequality) : Except Failure Threshold :=
  match inequality.form.monomials with
  | [term] =>
    let threshold := Threshold.ofMonomial term inequality.bound
    .ok (if inequality.positive then threshold else threshold.negated)
  | _ => .error (.of (.severalTerms inequality.text))

end Inequality
end OrderEncoding

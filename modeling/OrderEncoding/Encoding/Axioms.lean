import OrderEncoding.Encoding.Linear

/-!
# Axioms of a variable

The thresholds `x <= i` of a variable with the domain from `l` to `u` describe
an integer when `x <= l - 1` is false, `x <= u` is true, and each threshold
implies the next one.
-/

namespace OrderEncoding
namespace Variable

/-- The threshold `x <= bound`. -/
def atMost (x : Variable) (bound : Int) : Threshold :=
  { var := x, bound }

/-- The disjunction by which one threshold implies the next. -/
def monotone (x : Variable) (bound : Int) : List Threshold :=
  [(x.atMost (bound - 1)).negated, x.atMost bound]

/-- The axioms of a variable: the two ends of its domain, and monotonicity at
every value of it. -/
def axioms (x : Variable) : ThresholdForm :=
  [(x.atMost (x.lower - 1)).negated] :: [x.atMost x.upper] ::
    x.domain.map x.monotone

end Variable
end OrderEncoding

import OrderEncoding.Interval
import OrderEncoding.Total

/-!
# Tuples of a given sum

All tuples of integers, one from each of a list of ranges, whose sum is a given
target.  A range is a pair of inclusive bounds.  The search never takes a value
from which the remaining ranges cannot reach the target.
-/

namespace OrderEncoding
namespace Encoding

/-- The sum of the lower bounds of the ranges. -/
def leastSum (ranges : List (Int × Int)) : Int :=
  total (ranges.map Prod.fst)

/-- The sum of the upper bounds of the ranges. -/
def greatestSum (ranges : List (Int × Int)) : Int :=
  total (ranges.map Prod.snd)

/-- The tuples of the ranges with the given sum, in lexicographic order. -/
def tuplesWithSum : List (Int × Int) → Int → List (List Int)
  | [], target => if target = 0 then [[]] else []
  | (lower, upper) :: rest, target =>
    (Interval.values
        (max lower (target - greatestSum rest))
        (min upper (target - leastSum rest))).flatMap fun value =>
      (tuplesWithSum rest (target - value)).map (value :: ·)

end Encoding
end OrderEncoding

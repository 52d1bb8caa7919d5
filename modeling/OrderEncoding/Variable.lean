import OrderEncoding.Failure
import OrderEncoding.Interval

/-!
# Integer variables

A variable has a name and a nonempty interval of integers as its domain.
-/

namespace OrderEncoding

/-- A named integer variable with an inclusive domain. -/
structure Variable where
  name : String
  lower : Int
  upper : Int
  /-- The domain has a value. -/
  lower_le_upper : lower ≤ upper := by decide
deriving DecidableEq, Repr

namespace Variable

/-- The variable with the given bounds.  The lower bound must not exceed the
upper one, and the integer below it must still be a machine integer. -/
def ofBounds
    (name : String)
    (lower upper : Int) :
    Except Failure Variable :=
  if lower_le_upper : lower ≤ upper then
    if lower = Word.least then
      .error (.malformed (.lowerBoundOutOfRange name lower))
    else
      .ok { name, lower, upper, lower_le_upper }
  else
    .error (.malformed (.emptyDomain name lower upper))

/-- The domain holds a value when the value lies between the bounds. -/
def Contains (x : Variable) (value : Int) : Prop :=
  x.lower ≤ value ∧ value ≤ x.upper

instance (x : Variable) (value : Int) : Decidable (x.Contains value) :=
  inferInstanceAs (Decidable (x.lower ≤ value ∧ value ≤ x.upper))

/-- The values of the domain in increasing order. -/
def domain (x : Variable) : List Int :=
  Interval.values x.lower x.upper

/-- The number of values of the domain. -/
def size (x : Variable) : Nat :=
  (x.upper - x.lower).toNat + 1

/-- The declaration of a variable: its name and its two bounds. -/
def declaration (x : Variable) : String :=
  x.name ++ " " ++ Numeral.ofInt x.lower ++ " " ++
    Numeral.ofInt x.upper

@[simp] theorem mem_domain
    {x : Variable}
    {value : Int} :
    value ∈ x.domain ↔ x.Contains value :=
  Interval.mem_values

theorem nodup_domain (x : Variable) : x.domain.Nodup :=
  (Interval.pairwise_values x.lower x.upper).imp Int.ne_of_lt

end Variable
end OrderEncoding

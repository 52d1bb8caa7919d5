/-!
# The range of machine integers

Bounds, coefficients and constants of a problem are integers of the signed
64-bit range.  Arithmetic is exact; an operation whose result has to be a
machine integer again says so by testing `Word.Fits`.
-/

namespace OrderEncoding
namespace Word

/-- The least signed 64-bit integer. -/
def least : Int := -9223372036854775808

/-- The greatest signed 64-bit integer. -/
def greatest : Int := 9223372036854775807

/-- The greatest unsigned 64-bit integer. -/
def greatestCount : Nat := 18446744073709551615

/-- An integer fits when it lies in the signed 64-bit range. -/
def Fits (value : Int) : Prop :=
  least ≤ value ∧ value ≤ greatest

instance (value : Int) : Decidable (Fits value) :=
  inferInstanceAs (Decidable (least ≤ value ∧ value ≤ greatest))

/-- The integer itself, if it fits. -/
def check? (value : Int) : Option Int :=
  if Fits value then some value else none

theorem check?_eq_some_iff
    {value result : Int} :
    check? value = some result ↔ Fits value ∧ result = value := by
  simp only [check?]
  split <;> simp_all [eq_comm]

end Word
end OrderEncoding

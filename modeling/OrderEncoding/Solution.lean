import OrderEncoding.Text.Numeral

/-!
# Solutions

A solution gives a value to each variable of a problem, in the order of the
declarations.
-/

namespace OrderEncoding

/-- A value given to a named variable. -/
structure Binding where
  name : String
  value : Int
deriving DecidableEq, Repr

/-- Values of the variables of a problem, in the order of declaration. -/
structure Solution where
  bindings : List Binding := []
deriving DecidableEq, Repr

namespace Binding

/-- The text of a binding. -/
def text (binding : Binding) : String :=
  binding.name ++ " = " ++ Numeral.ofInt binding.value

end Binding

namespace Solution

/-- The value of the named variable. -/
def value? (solution : Solution) (name : String) : Option Int :=
  (solution.bindings.find? (·.name = name)).map Binding.value

/-- The value of the named variable, and zero for an unknown one. -/
def valuation (solution : Solution) (name : String) : Int :=
  (solution.value? name).getD 0

/-- The texts of the bindings, joined by a separator. -/
def textWith (separator : String) (solution : Solution) : String :=
  separator.intercalate (solution.bindings.map Binding.text)

/-- The text of a solution, one binding a line. -/
def text (solution : Solution) : String :=
  solution.textWith "\n"

end Solution
end OrderEncoding

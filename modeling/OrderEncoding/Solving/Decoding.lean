import OrderEncoding.Formula
import OrderEncoding.Problem.Basic

/-!
# Decoding models

The value of a variable in a model is the least `c` for which the order atom
`p(x,c)` is true.  False atoms and selectors have no part in it.
-/

namespace OrderEncoding

/-- The values whose order atoms of the named variable are among the true ones
of the literals. -/
def trueOrderValues (name : String) (literals : List Literal) : List Int :=
  literals.filterMap fun literal =>
    match literal with
    | { positive := true, atom := .order other value } =>
      if other = name then some value else none
    | _ => none

namespace Variable

/-- The binding of a variable that the literals of a model give. -/
def decode (x : Variable) (literals : List Literal) : Except Failure Binding :=
  match (trueOrderValues x.name literals).min? with
  | none => .error (.of (.noTrueOrderAtom x.name))
  | some value =>
    if x.Contains value then .ok { name := x.name, value }
    else .error (.of (.valueOutsideDomain x.name value))

end Variable

namespace Problem

/-- The solution that a model of signed numbers stands for. -/
def decode
    (problem : Problem)
    (formula : Formula)
    (model : List Int) :
    Except Failure Solution := do
  let literals ← model.mapM formula.literalOf
  let bindings ← problem.vars.mapM (Variable.decode · literals)
  .ok { bindings }

end Problem
end OrderEncoding

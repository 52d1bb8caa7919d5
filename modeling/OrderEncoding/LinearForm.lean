import OrderEncoding.Total
import OrderEncoding.Variable

/-!
# Linear forms

A monomial is a variable with an integer coefficient, and a linear form is a
sum of monomials.  `LinearForm.ofMonomials` gathers the monomials of a sum: each
variable occurs once, with a coefficient other than zero, and the values of the
form and of its negation are machine integers.
-/

namespace OrderEncoding

/-- A variable multiplied by a coefficient. -/
structure Monomial where
  var : Variable
  coefficient : Int
deriving DecidableEq, Repr

namespace Monomial

/-- The text of a monomial; a coefficient of one or minus one shows its sign
only. -/
def text (term : Monomial) : String :=
  if term.coefficient = 1 then term.var.name
  else if term.coefficient = -1 then "-" ++ term.var.name
  else Numeral.ofInt term.coefficient ++ term.var.name

/-- The monomial with the opposite coefficient. -/
def negated (term : Monomial) : Monomial :=
  { term with coefficient := -term.coefficient }

/-- The least value that the monomial takes on the domain of its variable. -/
def lower (term : Monomial) : Int :=
  if 0 < term.coefficient then term.coefficient * term.var.lower
  else term.coefficient * term.var.upper

/-- The greatest value that the monomial takes on the domain of its variable. -/
def upper (term : Monomial) : Int :=
  if 0 < term.coefficient then term.coefficient * term.var.upper
  else term.coefficient * term.var.lower

/-- The value of the monomial when the variable `x` has the value `value x`. -/
def eval (value : String → Int) (term : Monomial) : Int :=
  term.coefficient * value term.var.name

/-- One more than the greatest absolute value of the monomial. -/
def reach (term : Monomial) : Int :=
  max (term.coefficient * term.var.lower).natAbs
    (term.coefficient * term.var.upper).natAbs + 1

/-- A monomial is representable when the opposite coefficient and the reach are
machine integers. -/
def Representable (term : Monomial) : Prop :=
  Word.Fits (-term.coefficient) ∧ term.reach ≤ Word.greatest

instance (term : Monomial) : Decidable term.Representable :=
  inferInstanceAs (Decidable (_ ∧ _))

/-- The monomial itself, if its coefficient is not zero and it is
representable. -/
def checked (term : Monomial) : Except Failure Monomial :=
  if term.coefficient = 0 then
    .error (.expression ("0" ++ term.var.name) .zeroCoefficient)
  else if term.Representable then
    .ok term
  else
    .error (.expression term.text .constantOutOfRange)

end Monomial

/-- A sum of monomials. -/
structure LinearForm where
  monomials : List Monomial := []
deriving DecidableEq, Repr

namespace LinearForm

/-- The form that consists of one monomial. -/
def single (term : Monomial) : LinearForm :=
  { monomials := [term] }

/-- The text of a monomial that follows another one. -/
def followingText (term : Monomial) : String :=
  if 0 < term.coefficient then "+" ++ term.text else term.text

/-- The text of a form, `0` for the empty sum. -/
def text (form : LinearForm) : String :=
  match form.monomials with
  | [] => "0"
  | first :: rest => first.text ++ String.join (rest.map followingText)

/-- The form with the opposite coefficients. -/
def negated (form : LinearForm) : LinearForm :=
  { monomials := form.monomials.map Monomial.negated }

/-- The least value of the form on the domains of its variables. -/
def lower (form : LinearForm) : Int :=
  total (form.monomials.map Monomial.lower)

/-- The greatest value of the form on the domains of its variables. -/
def upper (form : LinearForm) : Int :=
  total (form.monomials.map Monomial.upper)

/-- The value of the form when the variable `x` has the value `value x`. -/
def eval (value : String → Int) (form : LinearForm) : Int :=
  total (form.monomials.map (Monomial.eval value))

/-- A bound on the absolute values of all partial sums of the form. -/
def reach (form : LinearForm) : Int :=
  total (form.monomials.map Monomial.reach)

/-- Adds a monomial to a sum in which every variable occurs once. -/
def gather : List Monomial → Monomial → Except Failure (List Monomial)
  | [], term => .ok [term]
  | first :: rest, term =>
    if first.var.name = term.var.name then
      if Word.Fits (first.coefficient + term.coefficient) then
        .ok ({ first with
          coefficient := first.coefficient + term.coefficient } :: rest)
      else
        .error (.expression term.var.name .coefficientOutOfRange)
    else
      (gather rest term).map (first :: ·)

/-- The form that a sum of monomials denotes.  Monomials of one variable are
merged at the place of the first of them, and those that cancel are dropped. -/
def ofMonomials (terms : List Monomial) : Except Failure LinearForm := do
  let gathered ← terms.foldlM gather []
  let monomials ←
    (gathered.filter (·.coefficient ≠ 0)).mapM Monomial.checked
  let form : LinearForm := { monomials }
  if form.reach ≤ Word.greatest then
    .ok form
  else
    .error (.expression form.text .constantOutOfRange)

end LinearForm
end OrderEncoding

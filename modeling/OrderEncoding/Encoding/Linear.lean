import OrderEncoding.Encoding.Tuples
import OrderEncoding.Inequality

/-!
# Inequalities as conjunctions of disjunctions of thresholds

The inequality `a₁x₁ + … + aₙxₙ <= c` holds exactly when, for every tuple
`(b₁, …, bₙ)` of sum `c - n + 1` with each `bᵢ` between one less than the least
value of `aᵢxᵢ` and its greatest value, some `aᵢxᵢ <= bᵢ` holds.  Each
`aᵢxᵢ <= bᵢ` is a threshold of `xᵢ`.  The negation of `e <= c` is
`-e <= -c - 1`, which has an encoding of the same size.
-/

namespace OrderEncoding

/-- A conjunction of disjunctions of thresholds. -/
abbrev ThresholdForm := List (List Threshold)

namespace Threshold

/-- The order of thresholds by name, domain, bound and sign. -/
def order (left right : Threshold) : Ordering :=
  (compare left.var.name right.var.name).then <|
  (compare left.var.lower right.var.lower).then <|
  (compare left.var.upper right.var.upper).then <|
  (compare left.bound right.bound).then <|
  compare left.positive right.positive

/-- Inserts a threshold into an increasing list that may hold it already. -/
def insert (threshold : Threshold) : List Threshold → List Threshold
  | [] => [threshold]
  | first :: rest =>
    match order threshold first with
    | .lt => threshold :: first :: rest
    | .eq => first :: rest
    | .gt => first :: insert threshold rest

/-- The thresholds of a disjunction in increasing order, each once. -/
def sorted (disjunction : List Threshold) : List Threshold :=
  disjunction.foldr insert []

end Threshold

namespace ThresholdForm

/-- The text of a form in braces, its disjunctions in brackets. -/
def text (form : ThresholdForm) : String :=
  "\x7b" ++
    ", ".intercalate (form.map fun disjunction =>
      "[" ++ ";".intercalate (disjunction.map Threshold.text) ++ "]") ++
    "\x7d"

/-- Whether every disjunction has a threshold that holds when the variable `x`
has the value `value x`. -/
def eval (value : String → Int) (form : ThresholdForm) : Bool :=
  form.all fun disjunction => disjunction.any fun threshold =>
    threshold.eval (value threshold.var.name)

/-- Drops the disjunctions whose set of thresholds is among those seen, or
that of an earlier disjunction. -/
def distinctFrom
    (seen : List (List Threshold)) :
    ThresholdForm → ThresholdForm
  | [] => []
  | disjunction :: rest =>
    let key := Threshold.sorted disjunction
    if key ∈ seen then distinctFrom seen rest
    else disjunction :: distinctFrom (key :: seen) rest

/-- The disjunctions of a form, without those that are equal as sets to an
earlier one. -/
def distinct (form : ThresholdForm) : ThresholdForm :=
  distinctFrom [] form

end ThresholdForm

namespace LinearForm

/-- The ranges of the bounds that the encoding compares the monomials with. -/
def boundRanges (form : LinearForm) : List (Int × Int) :=
  form.monomials.map fun term => (term.lower - 1, term.upper)

/-- The disjunction that compares every monomial with its bound of a tuple. -/
def disjunction
    (form : LinearForm)
    (bounds : List Int) :
    Except Failure (List Threshold) :=
  (form.monomials.zip bounds).mapM fun (term, bound) =>
    Inequality.toThreshold { form := .single term, bound }

/-- The encoding of the inequality that a form is at most a bound. -/
def encodeAtMost
    (form : LinearForm)
    (bound : Int) :
    Except Failure ThresholdForm :=
  if form.monomials.isEmpty then
    .ok (if 0 ≤ bound then [] else [[]])
  else if bound < form.lower then
    -- No tuple would reach the target, and an empty conjunction is true.
    .ok [[]]
  else
    (Encoding.tuplesWithSum form.boundRanges
      (bound - form.monomials.length + 1)).mapM form.disjunction

end LinearForm

namespace Inequality

/-- The encoding of an inequality, with no disjunction repeated. -/
def encode (inequality : Inequality) : Except Failure ThresholdForm :=
  (if inequality.positive then
    inequality.form.encodeAtMost inequality.bound
  else
    inequality.form.negated.encodeAtMost (-1 - inequality.bound)).map
  ThresholdForm.distinct

end Inequality
end OrderEncoding

import OrderEncoding.Choices
import OrderEncoding.Inequality

/-!
# Normal forms

A disjunctive form is a disjunction of conjunctions of inequalities, and a
conjunctive form is a conjunction of disjunctions of them.  Both are lists of
lists; picking one inequality of each inner list turns one form into the other.
-/

namespace OrderEncoding

/-- A disjunction of conjunctions of inequalities. -/
abbrev DisjunctiveForm := List (List Inequality)

/-- A conjunction of disjunctions of inequalities. -/
abbrev ConjunctiveForm := List (List Inequality)

namespace DisjunctiveForm

/-- Whether some conjunction of the form holds. -/
def eval (value : String → Int) (form : DisjunctiveForm) : Bool :=
  form.any fun conjunction => conjunction.all (Inequality.eval value)

/-- The negation of a form by the laws of De Morgan: each pick of one inequality
of every conjunction gives the conjunction of the opposite inequalities. -/
def negated (form : DisjunctiveForm) : DisjunctiveForm :=
  (choices form).map fun pick => (pick.map Inequality.negated).eraseDups

/-- The conjunctive form with the same meaning: each pick of one inequality of
every conjunction gives one disjunction. -/
def toConjunctive (form : DisjunctiveForm) : ConjunctiveForm :=
  (choices form).map List.eraseDups

end DisjunctiveForm

namespace ConjunctiveForm

/-- Whether every disjunction of the form holds. -/
def eval (value : String → Int) (form : ConjunctiveForm) : Bool :=
  form.all fun disjunction => disjunction.any (Inequality.eval value)

/-- The disjunction of two forms, distributed into a conjunctive form again.
Without a first form it is the second one. -/
def disjoin : Option ConjunctiveForm → ConjunctiveForm → ConjunctiveForm
  | none, form => form
  | some first, second =>
    first.flatMap fun left => second.map fun right => (left ++ right).eraseDups

/-- The disjunction of the forms of a list, read from the left. -/
def disjoinAll (forms : List ConjunctiveForm) : ConjunctiveForm :=
  (forms.foldl (fun sum form => some (disjoin sum form)) none).getD []

end ConjunctiveForm
end OrderEncoding

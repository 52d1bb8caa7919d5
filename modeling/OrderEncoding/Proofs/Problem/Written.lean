import OrderEncoding.Problem.Literal
import OrderEncoding.Proofs.Text.Characters

/-!
# Written literals

The grammar of literals, apart from how they are read.  A literal compares two
sides and stands within any number of negations; a side is a sequence of signed
terms.  Every written thing has a text and a meaning.
-/

namespace OrderEncoding
namespace Written

/-- The sign of a term. -/
inductive Sign where
  | plus
  | minus
deriving DecidableEq, Repr

/-- The character of a sign. -/
def Sign.character : Sign → Char
  | plus => '+'
  | minus => '-'

/-- A term: a number, a name, or both of them with an optional star between,
after an optional sign. -/
structure Term where
  sign : Option Sign := none
  digits : List Char := []
  star : Bool := false
  name : List Char := []
deriving DecidableEq, Repr

namespace Term

/-- The text of the sign of a term. -/
def mark (term : Term) : List Char :=
  (term.sign.map Sign.character).toList

/-- The text that follows the number of a term. -/
def factor (term : Term) : List Char :=
  (if term.star then ['*'] else []) ++ term.name

/-- The text of a term without its sign. -/
def body (term : Term) : List Char :=
  term.digits ++ term.factor

/-- The text of a term. -/
def text (term : Term) : List Char :=
  term.mark ++ term.body

/-- A term is complete when it has a name or is a number and nothing more. -/
def Complete (term : Term) : Prop :=
  (term.name = [] ∧ term.digits ≠ [] ∧ term.star = false) ∨
    isIdentifier term.name = true

/-- A term is proper when it is complete and its number consists of ASCII
digits. -/
structure Proper (term : Term) : Prop where
  digits : term.digits.all Char.isDigit = true
  complete : term.Complete

/-- The number of a term, one if none is written. -/
def size (term : Term) : Nat :=
  if term.digits = [] then 1 else Nat.ofDigitChars 10 term.digits 0

/-- The number of a term with its sign. -/
def coefficient (term : Term) : Int :=
  if term.sign = some .minus then -term.size else term.size

theorem coefficient_eq_or (term : Term) :
    term.coefficient = term.size ∨ term.coefficient = -term.size := by
  rw [coefficient]
  split
  · exact .inr rfl
  · exact .inl rfl

/-- The value of a term when the variable `x` has the value `value x`. -/
def eval (value : String → Int) (term : Term) : Int :=
  if term.name = [] then term.coefficient
  else term.coefficient * value (String.ofList term.name)

end Term

/-- A sum of terms. -/
abbrev Side := List Term

namespace Side

/-- The text of a side. -/
def text (side : Side) : List Char :=
  side.flatMap Term.text

@[simp] theorem text_cons
    (first : Term)
    (rest : Side) :
    text (first :: rest) = first.text ++ text rest := rfl

/-- A side is proper when it has a term, its terms are proper, and all of them
but the first have a sign. -/
structure Proper (side : Side) : Prop where
  nonempty : side ≠ []
  terms : ∀ term ∈ side, term.Proper
  signed : ∀ term ∈ side.tail, term.sign ≠ none

/-- The value of a side when the variable `x` has the value `value x`. -/
def eval (value : String → Int) (side : Side) : Int :=
  total (side.map (Term.eval value))

end Side

/-- Two sides with a relation between them, within a number of negations. -/
structure Literal where
  negations : Nat := 0
  left : Side
  relation : Relation
  right : Side
deriving DecidableEq, Repr

/-- A text within a number of negations. -/
def wrap : Nat → List Char → List Char
  | 0, core => core
  | negations + 1, core => '-' :: '(' :: (wrap negations core ++ [')'])

namespace Literal

/-- The text of the comparison of a literal. -/
def core (literal : Literal) : List Char :=
  literal.left.text ++ (literal.relation.text.toList ++ literal.right.text)

/-- The text of a literal. -/
def text (literal : Literal) : List Char :=
  wrap literal.negations literal.core

/-- A literal is proper when both of its sides are. -/
structure Proper (literal : Literal) : Prop where
  left : literal.left.Proper
  right : literal.right.Proper

/-- Whether a literal holds when the variable `x` has the value `value x`.  An
odd number of negations turns the meaning of its comparison round. -/
def eval (value : String → Int) (literal : Literal) : Bool :=
  xor (literal.relation.eval (literal.left.eval value)
    (literal.right.eval value)) (literal.negations % 2 == 1)

end Literal

end Written
end OrderEncoding

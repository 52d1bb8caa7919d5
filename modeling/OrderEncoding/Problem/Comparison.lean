import OrderEncoding.Problem.NormalForm
import OrderEncoding.Problem.Side

/-!
# Comparisons

A literal of a problem compares two sides by one of six relations.  Moving all
variables to the left and all constants to the right gives a comparison of a
linear form with a constant, and every comparison is a disjunctive form of
inequalities.
-/

namespace OrderEncoding

/-- A relation between two integers. -/
inductive Relation where
  | le
  | lt
  | ge
  | gt
  | eq
  | ne
deriving DecidableEq, Repr

namespace Relation

/-- The sign of a relation. -/
def text : Relation → String
  | le => "<="
  | lt => "<"
  | ge => ">="
  | gt => ">"
  | eq => "="
  | ne => "!="

/-- The relation of a sign. -/
def read (sign : String) : Except Failure Relation :=
  match [le, lt, ge, gt, eq, ne].find? (·.text = sign) with
  | some relation => .ok relation
  | none => .error (.expression sign .unknownRelation)

/-- Whether a relation holds between two integers. -/
def eval (relation : Relation) (left right : Int) : Bool :=
  match relation with
  | le => left ≤ right
  | lt => left < right
  | ge => left ≥ right
  | gt => left > right
  | eq => left = right
  | ne => left ≠ right

end Relation

/-- A linear form compared with a constant. -/
structure Comparison where
  form : LinearForm
  relation : Relation
  constant : Int
deriving DecidableEq, Repr

/-- A text cut at its first relation. -/
structure SplitComparison where
  left : List Char
  relation : Relation
  right : List Char
deriving DecidableEq, Repr

namespace Comparison

/-- Puts one more character before the left side. -/
def SplitComparison.cons
    (first : Char)
    (split : SplitComparison) :
    SplitComparison :=
  { split with left := first :: split.left }

/-- Cuts a text at its first relation; the longer sign wins. -/
def split? : List Char → Option SplitComparison
  | [] => none
  | '<' :: '=' :: right => some { left := [], relation := .le, right }
  | '>' :: '=' :: right => some { left := [], relation := .ge, right }
  | '!' :: '=' :: right => some { left := [], relation := .ne, right }
  | '<' :: right => some { left := [], relation := .lt, right }
  | '>' :: right => some { left := [], relation := .gt, right }
  | '=' :: right => some { left := [], relation := .eq, right }
  | first :: rest => (split? rest).map (SplitComparison.cons first)

/-- Whether a character can only belong to a relation. -/
def isRelationSign (character : Char) : Bool :=
  character == '<' || character == '>' || character == '=' ||
    character == '!'

/-- Reads a comparison over the given variables.  A comparison stands on one
line, so a text with a line feed holds none. -/
def read
    (scope : List Variable)
    (literal : List Char) :
    Except Failure Comparison := do
  let text := String.ofList literal
  let some split := if '\n' ∈ literal then none else split? literal
    | .error (.expression text .noRelation)
  if split.right.any isRelationSign then
    .error (.expression text .severalRelations)
  else
    let left ← Side.read scope split.left
    let right ← Side.read scope split.right
    match LinearForm.ofMonomials
        (left.monomials ++ right.monomials.map Monomial.negated) with
    | .error _ => .error (.expression text .constantOutOfRange)
    | .ok form =>
      let constant := right.constant - left.constant
      if Word.Fits constant then
        .ok { form, relation := split.relation, constant }
      else
        .error (.expression text .constantOutOfRange)

/-- Whether a comparison holds when the variable `x` has the value `value x`. -/
def eval (value : String → Int) (comparison : Comparison) : Bool :=
  comparison.relation.eval (comparison.form.eval value) comparison.constant

/-- The inequality that compares the form of a comparison with a bound. -/
def atMost
    (comparison : Comparison)
    (bound : Int) :
    Inequality :=
  { form := comparison.form, bound }

/-- The disjunctive form of a comparison whose constant has a machine integer
below it. -/
def toDisjunctive (comparison : Comparison) : DisjunctiveForm :=
  let le := comparison.atMost comparison.constant
  let lt := comparison.atMost (comparison.constant - 1)
  match comparison.relation with
  | .le => [[le]]
  | .gt => [[le.negated]]
  | .lt => [[lt]]
  | .ge => [[lt.negated]]
  | .eq => [[le, lt.negated]]
  | .ne => [[lt], [le.negated]]

/-- The disjunctive form of a comparison, `none` if it needs an integer that is
no machine integer. -/
def toDisjunctive? (comparison : Comparison) : Option DisjunctiveForm :=
  match comparison.relation with
  | .le | .gt => some comparison.toDisjunctive
  | .lt | .ge | .eq | .ne =>
    if Word.Fits (comparison.constant - 1) then some comparison.toDisjunctive
    else none

end Comparison
end OrderEncoding

import OrderEncoding.Problem.Comparison

/-!
# Literals of a problem

A literal is a comparison within any number of wrappers `-( … )`, each of which
negates what it holds.  Its meaning is a disjunctive form of inequalities.
-/

namespace OrderEncoding
namespace WrappedLiteral

/-- Whether the parentheses of a text are balanced when `depth` of them are
open before it, and no prefix closes more than are open. -/
def balanced : Nat → List Char → Bool
  | depth, [] => depth == 0
  | depth, '(' :: rest => balanced (depth + 1) rest
  | 0, ')' :: _ => false
  | depth + 1, ')' :: rest => balanced depth rest
  | depth, _ :: rest => balanced depth rest

/-- The text within a negation that wraps the whole literal. -/
def stripNegation? : List Char → Option (List Char)
  | '-' :: '(' :: rest =>
    if rest.getLast? = some ')' ∧ balanced 0 rest.dropLast then
      some rest.dropLast
    else
      none
  | _ => none

theorem length_of_stripNegation?
    {literal inner : List Char}
    (stripped : stripNegation? literal = some inner) :
    inner.length < literal.length := by
  unfold stripNegation? at stripped
  split at stripped
  · split at stripped
    · cases stripped
      simp only [List.length_dropLast, List.length_cons]
      omega
    · contradiction
  · contradiction

end WrappedLiteral

/-- A comparison text and whether an even number of negations wraps it. -/
structure WrappedLiteral where
  positive : Bool
  core : List Char
deriving DecidableEq, Repr

namespace WrappedLiteral

/-- Takes all negations off a trimmed literal. -/
def unwrap (positive : Bool) (literal : List Char) : WrappedLiteral :=
  match _stripped : stripNegation? literal with
  | some inner => unwrap (!positive) (Text.trim inner)
  | none => { positive, core := literal }
termination_by literal.length
decreasing_by
  have shorter := length_of_stripNegation? _stripped
  have trimmed := Text.length_trim_le inner
  omega

/-- The disjunctive form of a wrapped literal over the given variables. -/
def toDisjunctive
    (scope : List Variable)
    (literal : WrappedLiteral) :
    Except Failure DisjunctiveForm := do
  let comparison ← Comparison.read scope literal.core
  match comparison.toDisjunctive? with
  | some form =>
    .ok (if literal.positive then form else DisjunctiveForm.negated form)
  | none =>
    .error (.expression (String.ofList literal.core) .constantOutOfRange)

end WrappedLiteral

namespace DisjunctiveForm

/-- Reads the disjunctive form of a literal over the given variables. -/
def read
    (scope : List Variable)
    (literal : List Char) :
    Except Failure DisjunctiveForm :=
  (WrappedLiteral.unwrap true (Text.trim literal)).toDisjunctive scope

end DisjunctiveForm
end OrderEncoding

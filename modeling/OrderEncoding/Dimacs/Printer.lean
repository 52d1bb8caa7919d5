import OrderEncoding.Formula

/-!
# Writing DIMACS text

The text of a formula for a solver: comment lines, a header with the numbers of
atoms and clauses, and one line of signed numbers ended by `0` for each clause.

    c Created from SAT object
    c <comment>
    c
    p cnf 3 2
    1 -2 0
    3 0
-/

namespace OrderEncoding
namespace Dimacs

/-- The first comment of every written file. -/
def origin : String := "Created from SAT object"

/-- The comment on one line: every line break becomes a space. -/
def commentLine (comment : String) : String :=
  String.ofList (comment.toList.map fun character =>
    if character = '\r' ∨ character = '\n' then ' ' else character)

/-- The lines before the clauses. -/
def preamble (comment : String) (atomCount clauseCount : Nat) : String :=
  "c " ++ origin ++ "\nc " ++ commentLine comment ++ "\nc\np cnf " ++
    Numeral.ofNat atomCount ++ " " ++ Numeral.ofNat clauseCount ++ "\n"

/-- The line of a clause: each number is followed by a space, and `0` ends the
line. -/
def clauseLine (numbers : List Int) : String :=
  String.join (numbers.map fun number => Numeral.ofInt number ++ " ") ++ "0\n"

end Dimacs

namespace Formula

/-- The signed numbers of the clauses, which are numbered from the given
index. -/
def signedClauses
    (formula : Formula)
    (index : Nat) :
    List Clause → Except Failure (List (List Int))
  | [] => .ok []
  | clause :: rest => do
    let numbers ← inContext (.exportingClause index)
      (clause.mapM formula.signedNumber)
    let others ← signedClauses formula (index + 1) rest
    .ok (numbers :: others)

/-- The DIMACS text of a formula, with a comment. -/
def toDimacs (formula : Formula) (comment : String) : Except Failure String :=
  (formula.signedClauses 0 formula.clauses).map fun clauses =>
    Dimacs.preamble comment formula.atoms.length formula.clauses.length ++
      String.join (clauses.map Dimacs.clauseLine)

end Formula
end OrderEncoding

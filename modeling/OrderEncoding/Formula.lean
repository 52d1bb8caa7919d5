import OrderEncoding.Failure
import OrderEncoding.Inequality

/-!
# Propositional formulas with numbered atoms

A formula is a list of atoms and a list of clauses over them.  An atom's number
is its position in the list, counted from one, and is looked up in a table.  Atoms
are registered in the order of their first appearance and are never removed, so
numbers stay valid.
-/

namespace OrderEncoding

/-- A named boolean of a formula. -/
inductive Atom where
  /-- The variable with this name is at most the value. -/
  | order (name : String) (value : Int)
  /-- The literal at this position of a problem's clause is selected. -/
  | selector (clause literal : Nat)
deriving DecidableEq, Repr

/-- An atom or its negation. -/
structure Literal where
  positive : Bool
  atom : Atom
deriving DecidableEq, Repr

/-- A disjunction of literals. -/
abbrev Clause := List Literal

/-- The table of the numbers of listed atoms, the last atom first. -/
def Atom.numbering (atoms : List Atom) : List (Atom × Nat) :=
  (atoms.zipIdx 1).reverse

/-- Numbered atoms and a conjunction of clauses over them. -/
structure Formula where
  atoms : List Atom := []
  /-- The table in which the number of an atom is looked up; the first entry of an
  atom counts. -/
  numbers : List (Atom × Nat) := Atom.numbering atoms
  clauses : List Clause := []
deriving DecidableEq, Repr

/-- A formula after an atom was registered, and the number of the atom. -/
structure Registration where
  formula : Formula
  number : Nat
deriving DecidableEq, Repr

namespace Atom

/-- The text of an atom. -/
def text : Atom → String
  | order name value => "p(" ++ name ++ "," ++ Numeral.ofInt value ++ ")"
  | selector clause literal =>
    "q(" ++ Numeral.ofNat clause ++ "," ++ Numeral.ofNat literal ++ ")"

/-- Whether an atom selects a literal. -/
def isSelector : Atom → Bool
  | order _ _ => false
  | selector _ _ => true

end Atom

namespace Literal

/-- The text of a literal. -/
def text (literal : Literal) : String :=
  if literal.positive then literal.atom.text else "-" ++ literal.atom.text

/-- The opposite literal. -/
def negated (literal : Literal) : Literal :=
  { literal with positive := !literal.positive }

/-- Whether a literal holds when each atom `a` has the truth value `truth a`. -/
def eval (truth : Atom → Bool) (literal : Literal) : Bool :=
  truth literal.atom == literal.positive

end Literal

namespace Threshold

/-- The literal that stands for a threshold. -/
def toLiteral (threshold : Threshold) : Literal :=
  { positive := threshold.positive
    atom := .order threshold.var.name threshold.bound }

end Threshold

namespace Clause

/-- The text of a clause. -/
def text (clause : Clause) : String :=
  " ".intercalate (clause.map Literal.text)

/-- Whether some literal of a clause holds. -/
def eval (truth : Atom → Bool) (clause : Clause) : Bool :=
  clause.any (Literal.eval truth)

end Clause

namespace Formula

/-- Looks up the number of an atom, which is given the next one if it has none. -/
def enroll (formula : Formula) (atom : Atom) : Registration :=
  match formula.numbers.lookup atom with
  | some number => { formula, number }
  | none =>
    let number := formula.atoms.length + 1
    { formula :=
        { formula with
          atoms := formula.atoms ++ [atom]
          numbers := (atom, number) :: formula.numbers }
      number }

/-- Gives an atom a number unless it has one. -/
def register (formula : Formula) (atom : Atom) : Formula :=
  (formula.enroll atom).formula

/-- The formula without clauses over the given atoms. -/
def ofAtoms (atoms : List Atom) : Formula :=
  atoms.foldl register {}

/-- Adds a clause after registering its atoms. -/
def addClause (formula : Formula) (clause : Clause) : Formula :=
  let registered := (clause.map Literal.atom).foldl register formula
  { registered with clauses := registered.clauses ++ [clause] }

/-- The number of a registered atom. -/
def numberOf (formula : Formula) (atom : Atom) : Except Failure Nat :=
  match formula.numbers.lookup atom with
  | some number => .ok number
  | none => .error (.of (.unknownAtom atom.text))

/-- Adds a clause whose atoms are all registered already. -/
def addRegisteredClause
    (formula : Formula)
    (clause : Clause) :
    Except Failure Formula := do
  let _ ← clause.mapM fun literal => formula.numberOf literal.atom
  .ok { formula with clauses := formula.clauses ++ [clause] }

/-- The signed number of a literal over registered atoms. -/
def signedNumber (formula : Formula) (literal : Literal) : Except Failure Int :=
  (formula.numberOf literal.atom).map fun number =>
    if literal.positive then (number : Int) else -(number : Int)

/-- The literal of a signed number. -/
def literalOf (formula : Formula) (number : Int) : Except Failure Literal :=
  let outOfRange :=
    Failure.of (.literalOutOfRange number formula.atoms.length)
  match number.natAbs with
  | 0 => .error outOfRange
  | position + 1 =>
    match formula.atoms[position]? with
    | some atom => .ok { positive := decide (0 < number), atom }
    | none => .error outOfRange

/-- The text of a formula: its atoms, then a line for each clause. -/
def text (formula : Formula) : String :=
  "B = \x7b" ++ ", ".intercalate (formula.atoms.map Atom.text) ++
    "\x7d\nS = \x7b\n" ++
    String.join (formula.clauses.map fun clause =>
      "  [" ++ clause.text ++ "]\n") ++
    "\x7d"

/-- Whether all clauses of a formula hold. -/
def eval (truth : Atom → Bool) (formula : Formula) : Bool :=
  formula.clauses.all (Clause.eval truth)

end Formula
end OrderEncoding

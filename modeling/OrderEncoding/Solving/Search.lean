import OrderEncoding.Dimacs.Reader
import OrderEncoding.Solving.Backend

/-!
# A complete search for models

The models of numbered clauses are searched through in lexicographic order of
the atoms' numbers, with the preferred truth value first.  A clause with a single
literal left forces that literal, and an empty clause ends a branch.
-/

namespace OrderEncoding
namespace Search

/-- The clauses that are left when a literal is true. -/
def assume (literal : Int) (clauses : List (List Int)) : List (List Int) :=
  (clauses.filter (!·.contains literal)).map (·.filter (· ≠ -literal))

/-- The literal of a clause that has no other. -/
def unitLiteral? : List Int → Option Int
  | [literal] => some literal
  | _ => none

/-- Clauses with the literals that are forced to be true. -/
structure Residue where
  forced : List Int
  clauses : List (List Int)
deriving DecidableEq, Repr

/-- Assumes literals that are clauses of their own, as long as there are any.
Every round drops a clause, so the number of clauses bounds the rounds. -/
def propagate : Nat → Residue → Residue
  | 0, residue => residue
  | rounds + 1, residue =>
    match residue.clauses.findSome? unitLiteral? with
    | none => residue
    | some literal =>
      propagate rounds
        { forced := literal :: residue.forced
          clauses := assume literal residue.clauses }

/-- The residue after all unit clauses were taken up. -/
def Residue.closed (residue : Residue) : Residue :=
  propagate residue.clauses.length residue

/-- The residue after a literal was assumed. -/
def Residue.with (residue : Residue) (literal : Int) : Residue :=
  Residue.closed
    { residue with clauses := assume literal residue.clauses }

/-- The first model of a residue that gives a literal for each of the atoms, in
the order of the atoms. -/
def findModel (preferred : Bool) :
    List Int → Residue → Option (List Int)
  | [], residue => if [] ∈ residue.clauses then none else some []
  | atom :: rest, residue =>
    if [] ∈ residue.clauses then none
    else if atom ∈ residue.forced then
      (findModel preferred rest residue).map (atom :: ·)
    else if -atom ∈ residue.forced then
      (findModel preferred rest residue).map (-atom :: ·)
    else
      let first := if preferred then atom else -atom
      match findModel preferred rest (residue.with first) with
      | some model => some (first :: model)
      | none =>
        (findModel preferred rest (residue.with (-first))).map (-first :: ·)

/-- The lexicographically first model of numbered clauses. -/
def model? (preferred : Bool) (numbered : NumberedClauses) :
    Option (List Int) :=
  findModel preferred
    ((List.range numbered.atomCount).map fun position : Nat => (position : Int) + 1)
    (Residue.closed { forced := [], clauses := numbered.clauses })

/-- The answer to numbered clauses in the form that solvers write. -/
def answer (preferred : Bool) (numbered : NumberedClauses) : String :=
  match model? preferred numbered with
  | none => "UNSAT\n"
  | some model =>
    "SAT\n" ++
      String.join (model.map fun number => Numeral.ofInt number ++ " ") ++ "0\n"

/-- The files after the clauses of the input were answered in the output. -/
def run
    (preferred : Bool)
    (input output : String)
    (files : Files) :
    Except Failure Files :=
  match files.readText? input with
  | none => .error (.of .system)
  | some text => do
    let numbered ← NumberedClauses.read text
    match files.write output (.text (answer preferred numbered)) with
    | .ok files => .ok files
    | .error _ => .error (.of .system)

/-- The search as a backend without a memory. -/
def backend (preferred : Bool) : Backend Unit :=
  fun _ input output files =>
    match run preferred input output files with
    | .ok files => { result := .ok (), memory := (), files }
    | .error failure => { result := .error failure, memory := (), files }

/-- The search as a program, which is given the input and the output last. -/
def program : Program :=
  fun arguments files =>
    match arguments.reverse with
    | output :: input :: _ =>
      match run false input output files with
      | .ok files => { files }
      | .error failure =>
        { ending := .exited 1, errors := .text (failure.message ++ "\n"), files }
    | _ => { ending := .exited 1, errors := .text "usage: INPUT OUTPUT\n", files }

end Search
end OrderEncoding

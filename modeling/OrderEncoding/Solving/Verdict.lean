import OrderEncoding.Failure
import OrderEncoding.Text.Blank

/-!
# Verdicts of solvers

A solver answers that a formula is unsatisfiable, or gives a model: signed
numbers ended by `0`.  Bare verdict words, the lines of solver competitions and
an empty answer, which means unsatisfiable, are all understood.
-/

namespace OrderEncoding

/-- The answer of a solver. -/
inductive Verdict where
  | unsatisfiable
  /-- The signed numbers of a model, without the final `0`. -/
  | model (numbers : List Int)
deriving DecidableEq, Repr

namespace Verdict

/-- A trimmed line by its role in an answer. -/
inductive Line where
  | comment
  | unsatisfiable
  | satisfiable
  | undecided
  | numbers (words : List (List Char))
deriving DecidableEq, Repr

/-- The role of a trimmed line, which its first word decides. -/
def classify (line : List Char) : Line :=
  match (Text.words line).map String.ofList with
  | [] => .comment
  | first :: _ =>
    if first = "c" then .comment
    else if first = "UNSAT" ∨ first = "UNSATISFIABLE" then .unsatisfiable
    else if first = "SAT" ∨ first = "SATISFIABLE" then .satisfiable
    else if first = "s" then
      if String.ofList line = "s UNSATISFIABLE" then .unsatisfiable
      else if String.ofList line = "s SATISFIABLE" then .satisfiable
      else .undecided
    else if first = "INDET" ∨ first = "UNKNOWN" then .undecided
    else if first = "v" then .numbers (Text.words line).tail
    else .numbers (Text.words line)

/-- The numbers read so far, and whether a `0` ended them. -/
structure Numbers where
  numbers : List Int
  ended : Bool := false
deriving DecidableEq, Repr

/-- Takes up the numbers of a line until the first `0`. -/
def readNumbers
    (numbers : List Int) :
    List (List Char) → Except Failure Numbers
  | [] => .ok { numbers }
  | word :: rest =>
    match Numeral.readWord? word with
    | none => .error (.malformed (.modelLiteral (String.ofList word)))
    | some number =>
      if number = 0 then .ok { numbers, ended := true }
      else readNumbers (numbers ++ [number]) rest

/-- Reads the lines of an answer, given the numbers before them and whether a
line has said that the formula is satisfiable. -/
def readLines
    (numbers : List Int)
    (satisfiable : Bool) :
    List (List Char) → Except Failure Verdict
  | [] =>
    .ok (if numbers.isEmpty && !satisfiable then .unsatisfiable
      else .model numbers)
  | line :: rest =>
    match classify (Text.trim line) with
    | .comment => readLines numbers satisfiable rest
    | .unsatisfiable => .ok .unsatisfiable
    | .satisfiable => readLines numbers true rest
    | .undecided =>
      .error (.malformed (.noVerdict (String.ofList (Text.trim line))))
    | .numbers words => do
      let read ← readNumbers numbers words
      if read.ended then .ok (.model read.numbers)
      else readLines read.numbers satisfiable rest

/-- Reads the answer of a solver. -/
def read (text : String) : Except Failure Verdict :=
  readLines [] false (Text.lines text.toList)

end Verdict
end OrderEncoding

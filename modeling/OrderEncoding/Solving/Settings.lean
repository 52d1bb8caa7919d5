/-!
# Settings of a session

Which solver is called, which files it exchanges with a session, and how an
enumeration goes on after a solution.
-/

namespace OrderEncoding

/-- How a model is excluded before the next one is sought. -/
inductive Blocking where
  /-- Negate every literal of the model, selectors included. -/
  | fullAssignment
  /-- Negate the order literals only, so that no solution comes twice. -/
  | projected
deriving DecidableEq, Repr

namespace Blocking

/-- The name of a way of blocking. -/
def name : Blocking → String
  | fullAssignment => "full-assignment"
  | projected => "projected"

/-- The way of blocking with the given name. -/
def read? (name : String) : Option Blocking :=
  [fullAssignment, projected].find? (·.name = name)

end Blocking

/-- The settings of a session. -/
structure Settings where
  /-- The solver, called with the arguments, the input and the output. -/
  program : String
  arguments : List String := []
  /-- The file with the formula for the solver. -/
  input : String := "sat.dimacs"
  /-- The file with the answer of the solver. -/
  output : String := "output.txt"
  /-- A comment for the input file. -/
  comment : String := ""
  blocking : Blocking := .fullAssignment
  /-- The number of solutions after which an enumeration stops. -/
  limit : Option Nat := none
deriving DecidableEq, Repr

namespace Settings

/-- The variable of the environment that may name a solver. -/
def solverVariable : String := "SATO_SOLVER"

/-- The solver that is called when none is named. -/
def usualProgram : String := "glucose"

/-- The default settings, where the environment may name a solver. -/
def ofEnvironment (solver : Option String) : Settings :=
  { program := (solver.filter (· ≠ "")).getD usualProgram }

/-- The path of a file in a directory. -/
def joinPath (directory name : String) : String :=
  match directory.toList.getLast? with
  | none => name
  | some '/' => directory ++ name
  | some _ => directory ++ "/" ++ name

/-- The same settings with both files in a directory. -/
def inDirectory (settings : Settings) (directory : String) : Settings :=
  { settings with
    input := joinPath directory settings.input
    output := joinPath directory settings.output }

/-- Whether an enumeration stops after so many solutions. -/
def stopsAt (settings : Settings) (count : Nat) : Bool :=
  settings.limit.any (· ≤ count)

end Settings
end OrderEncoding

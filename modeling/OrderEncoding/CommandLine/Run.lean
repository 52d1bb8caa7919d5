import OrderEncoding.CommandLine.Options
import OrderEncoding.Problem.Reader
import OrderEncoding.Solving.Session

/-!
# Running a command line

The problem is read from a file or from the words of the command line and
encoded.  Then the formula is only written, or the solver is asked for one
solution or for all of them, and the answer is reported.
-/

namespace OrderEncoding

/-- What a run finds: the programs that it can start, the solver that the
environment names, and the files. -/
structure Surroundings where
  programs : Programs
  solver : Option String := none
  files : Files := {}

/-- What a run leaves behind. -/
structure CommandRun where
  result : Except Failure Unit
  /-- What was printed. -/
  output : String := ""
  files : Files
  events : List Event := []

namespace Options

/-- The text of the problem. -/
def problemText (options : Options) (files : Files) : Except Failure String :=
  match options.problemFile with
  | some path =>
    match files.readText? path with
    | some text => .ok text
    | none =>
      .error { contexts := [.readingProblemFile path], cause := .system }
  | none =>
    if options.problem.isEmpty then .error (.of .noProblem)
    else .ok (" ".intercalate options.problem)

/-- Writes the formula, or asks the solver and reports its answer. -/
def runSession
    (options : Options)
    (backend : Backend σ)
    (session : Session σ) :
    CommandRun :=
  if options.dimacsOnly then
    let step := session.exportFormula
    { result := step.result
      files := step.session.files
      events := step.session.events }
  else if options.allSolutions || options.maxSolutions.isSome then
    match session.enumerate backend Session.manyRounds with
    | none =>
      { result := .error (.of .system)
        files := session.files
        events := session.events }
    | some enumeration =>
      let complete := enumeration.session.status = .unsatisfiable
      { result := enumeration.result.map fun _ => ()
        output :=
          match enumeration.result with
          | .ok solutions => Report.ofEnumeration solutions complete ++ "\n"
          | .error _ => ""
        files := enumeration.session.files
        events := enumeration.session.events }
  else
    let step := session.solve backend
    { result := step.result.map fun _ => ()
      output :=
        match step.result with
        | .ok outcome => Report.ofOutcome outcome ++ "\n"
        | .error _ => ""
      files := step.session.files
      events := step.session.events }

/-- The run after the text of the problem was read. -/
def runProblem
    (options : Options)
    (surroundings : Surroundings)
    (problem : Problem) :
    CommandRun :=
  let settings := options.settings surroundings.solver
  let before :=
    problem.readingEvents ++ [.debug ("CSP: " ++ problem.text)]
  match Session.start problem settings () surroundings.files with
  | .error failure =>
    { result := .error failure, files := surroundings.files, events := before }
  | .ok session =>
    let started :=
      { session with
        events := before ++ session.events ++
          [.debug ("SAT:\n" ++ session.formula.text)] }
    options.runSession (Backend.ofProgram surroundings.programs settings)
      started

/-- Runs a command line.  Only the events of the level that is asked for are
kept. -/
def run (options : Options) (surroundings : Surroundings) : CommandRun :=
  match options.problemText surroundings.files with
  | .error failure =>
    { result := .error failure, files := surroundings.files }
  | .ok text =>
    match inContext .readingProblem (Problem.read text) with
    | .error failure =>
      { result := .error failure, files := surroundings.files }
    | .ok problem =>
      let run := options.runProblem surroundings problem
      { run with events := Event.visible options.level run.events }

end Options
end OrderEncoding

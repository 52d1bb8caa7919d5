import OrderEncoding.CommandLine.Programs
import OrderEncoding.CommandLine.Run

/-!
# The command line program

The outer layer: it loads the files that a run may use, runs the command line on
them, and writes back what has changed.
-/

namespace OrderEncoding
namespace Main

/-- The help text. -/
def help : String :=
  "Solve finite-domain problems with a SAT solver through the order encoding.

Usage: [OPTIONS] [PROBLEM]...

Arguments:
  [PROBLEM]...  Declarations `x 0 5` and clauses `[x+y<=3 x!=y]`

Options:
  -a, --all-solutions      Report all solutions
  -n, --max-solutions N    Stop after N solutions
  -f, --dimacs FILE        DIMACS file given to the solver
  -o, --output FILE        File where the solver writes its result
  -c, --comment TEXT       Comment written in the DIMACS file
  -v, --verbose            Show the problem, the formula and solver output
      --solver PROGRAM     Solver, called with ARGS, input and output
      --solver-arg ARG     Extra argument given to the solver
      --blocking MODE      full-assignment or projected
      --dimacs-only        Only write the DIMACS file
      --log-level LEVEL    error, warn, info, debug or trace
      --problem FILE       Read the problem from a file
  -h, --help               Print help
  -V, --version            Print version
"

/-- What is said about a command line that is not run. -/
def usageText : UsageError → String
  | .invalidValue => "error: an option has no value, or one it does not know"
  | .valueValidation => "error: the value of an option is malformed"
  | .argumentConflict => "error: an option is given twice, or two exclude"
  | .tooManyValues => "error: an option that takes no value is given one"
  | .help => help
  | .version => "1.0.0"

/-- The line that shows an event. -/
def eventLine (event : Event) : String :=
  event.level.name.toUpper ++ " " ++ event.message

/-- The paths of the files that a run may use by its options. -/
def optionPaths (options : Options) : List String :=
  options.problemFile.toList ++ [options.dimacs, options.output]

/-- Adds the directories and files on the way of a path. -/
def loadPath (files : Files) (path : String) : IO Files := do
  let here ← IO.currentDir
  let mut files := files
  for way in (Files.Route.ofPath path).ways do
    let place := here / way.plain
    if ← place.isDir then
      files := { files with directories := way.plain :: files.directories }
    else
      -- A file that cannot be read is as good as none.
      if let .ok bytes ← EIO.toIO' (IO.FS.readBinFile place) then
        files := files.insert way.plain (.ofBytes bytes.toList)
  return files

/-- The paths of the files in the working directory. -/
def workingPaths : IO (List String) := do
  let entries ← (← IO.currentDir).readDir
  return entries.toList.map (·.fileName)

/-- Writes the files that are new or changed and removes those that are gone. -/
def store (before after : Files) : IO Unit := do
  let here ← IO.currentDir
  for directory in after.directories.reverse do
    if directory ∉ before.directories then
      IO.FS.createDir (here / directory)
  for entry in after.entries do
    if before.lookup? entry.path ≠ some entry.content then
      IO.FS.writeBinFile (here / entry.path) ⟨entry.content.bytes.toArray⟩
  for entry in before.entries do
    if (after.lookup? entry.path).isNone then
      IO.FS.removeFile (here / entry.path)

/-- The solver that the environment names. -/
def environmentSolver : IO (Option String) :=
  IO.getEnv Settings.solverVariable

/-- Runs a command line on the files and tells what came of it. -/
def runOptions (options : Options) : IO UInt32 := do
  let paths := optionPaths options ++ (← workingPaths)
  let files ← paths.foldlM loadPath {}
  let solver ← environmentSolver
  let run := options.run { programs := programsAtHand, solver, files }
  for event in run.events do
    IO.eprintln (eventLine event)
  store files run.files
  IO.print run.output
  match run.result with
  | .ok () => return 0
  | .error failure =>
    IO.eprintln failure.message
    return 1

end Main
end OrderEncoding

/-- Solves the problem of a command line. -/
def main (arguments : List String) : IO UInt32 :=
  match OrderEncoding.Options.read arguments with
  | .ok options => OrderEncoding.Main.runOptions options
  | .error error => do
    let text := OrderEncoding.Main.usageText error
    if error = .help ∨ error = .version then
      IO.println text
      return 0
    else
      IO.eprintln text
      return 2

import OrderEncoding.Event
import OrderEncoding.Failure
import OrderEncoding.Files
import OrderEncoding.Signal
import OrderEncoding.Solving.Settings
import OrderEncoding.Text.Blank

/-!
# Backends

A backend is called with the paths of an input and an output.  It may read and
write files, keep a memory between calls, tell events, and fail.  A program is a
backend that is called with arguments; it ends with a status or by a signal.
-/

namespace OrderEncoding

/-- What a call of a backend leaves behind. -/
structure BackendCall (σ : Type) where
  result : Except Failure Unit
  memory : σ
  files : Files
  events : List Event := []

/-- A solver behind two files, with a memory of type `σ`. -/
abbrev Backend (σ : Type) :=
  σ → (input output : String) → Files → BackendCall σ

/-- How the run of a program ended. -/
inductive Ending where
  | exited (status : Nat)
  | signalled (signal : Nat)
deriving DecidableEq, Repr

/-- How an ending is described. -/
def Ending.text : Ending → String
  | .exited status => "exit status: " ++ Numeral.ofNat status
  | .signalled signal => Signal.description signal

/-- What a run of a program leaves behind. -/
structure ProgramRun where
  ending : Ending := .exited 0
  output : Content := .text ""
  errors : Content := .text ""
  files : Files

/-- A program, which is run with arguments on the files. -/
abbrev Program := List String → Files → ProgramRun

/-- The programs that can be started, by name. -/
abbrev Programs := String → Option Program

namespace Backend

/-- Endings that are no cause for a warning: success, and the two verdicts of
solver competitions. -/
def usualEndings : List Ending := [.exited 0, .exited 10, .exited 20]

/-- The event that announces a call of a program. -/
def callEvent (settings : Settings) (input output : String) : Event :=
  .debug ("running " ++ settings.program ++ " " ++
    " ".intercalate settings.arguments ++ " " ++ input ++ " " ++ output)

/-- The events of a finished run: the lines of its output, and a warning for an
unusual ending. -/
def runEvents (program : String) (run : ProgramRun) : List Event :=
  (Text.lines run.output.display.toList).map (fun line =>
    .debug (String.ofList line)) ++
  if run.ending ∈ usualEndings then []
  else
    [{ level := .warn
       message := "solver '" ++ program ++ "' exited with " ++
        run.ending.text ++ ": " ++
        String.ofList (Text.trim run.errors.display.toList) }]

/-- Whether a program can be given an argument. -/
def isArgument (argument : String) : Bool :=
  !argument.toList.contains '\x00'

/-- The backend that runs the program of the settings. -/
def ofProgram (programs : Programs) (settings : Settings) : Backend Unit :=
  fun _ input output files =>
    let arguments := settings.arguments ++ [input, output]
    let call := callEvent settings input output
    match if arguments.all isArgument then programs settings.program
      else none with
    | none =>
      { result := .error
          { contexts := [.startingSolver settings.program]
            cause := .artifact settings.program }
        memory := ()
        files
        events := [call] }
    | some program =>
      let run := program arguments files
      { result := .ok ()
        memory := ()
        files := run.files
        events := call :: runEvents settings.program run }

end Backend
end OrderEncoding

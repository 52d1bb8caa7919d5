import OrderEncoding.Event
import OrderEncoding.Solving.Settings

/-!
# Options of the command line

Options come before the words of the problem: from the first word that is no
option on, and after `--`, everything belongs to the problem.  An option takes
its value from the next argument, after an equals sign, or as the last letter of
a cluster of option letters.  A value from the next argument is looked at only
when the next option or word of the problem is taken up, so a flag that is given
a value is refused before it.
-/

namespace OrderEncoding

/-- What is asked for on the command line. -/
structure Options where
  allSolutions : Bool := false
  maxSolutions : Option Nat := none
  dimacs : String := "sat.dimacs"
  output : String := "output.txt"
  comment : String := ""
  verbose : Bool := false
  solver : Option String := none
  solverArguments : List String := []
  blocking : Blocking := .fullAssignment
  dimacsOnly : Bool := false
  logLevel : Level := .warn
  problemFile : Option String := none
  problem : List String := []
deriving DecidableEq, Repr

/-- Why a command line is not run. -/
inductive UsageError where
  | invalidValue
  | valueValidation
  | argumentConflict
  | tooManyValues
  | help
  | version
deriving DecidableEq, Repr

/-- The options that have no value. -/
inductive Flag where
  | allSolutions
  | verbose
  | dimacsOnly
  | help
  | version
deriving DecidableEq, Repr

/-- The options that have a value. -/
inductive Setting where
  | maxSolutions
  | dimacs
  | output
  | comment
  | solver
  | solverArgument
  | blocking
  | logLevel
  | problemFile
deriving DecidableEq, Repr

/-- An option by its name. -/
inductive OptionName where
  | flag (flag : Flag)
  | setting (setting : Setting)
deriving DecidableEq, Repr

namespace OptionName

/-- The option of a long name. -/
def ofLong? : String → Option OptionName
  | "all-solutions" => some (.flag .allSolutions)
  | "max-solutions" => some (.setting .maxSolutions)
  | "dimacs" => some (.setting .dimacs)
  | "output" => some (.setting .output)
  | "comment" => some (.setting .comment)
  | "verbose" => some (.flag .verbose)
  | "solver" => some (.setting .solver)
  | "solver-arg" => some (.setting .solverArgument)
  | "blocking" => some (.setting .blocking)
  | "dimacs-only" => some (.flag .dimacsOnly)
  | "log-level" => some (.setting .logLevel)
  | "problem" => some (.setting .problemFile)
  | "help" => some (.flag .help)
  | "version" => some (.flag .version)
  | _ => none

/-- The option of a letter. -/
def ofLetter? : Char → Option OptionName
  | 'a' => some (.flag .allSolutions)
  | 'n' => some (.setting .maxSolutions)
  | 'f' => some (.setting .dimacs)
  | 'o' => some (.setting .output)
  | 'c' => some (.setting .comment)
  | 'v' => some (.flag .verbose)
  | 'h' => some (.flag .help)
  | 'V' => some (.flag .version)
  | _ => none

end OptionName

/-- An argument by its role, as long as no word of the problem was met. -/
inductive Argument where
  /-- The argument `--`. -/
  | endOfOptions
  | long (name : OptionName) (value : Option String)
  /-- A nonempty cluster of option letters. -/
  | letters (first : Char) (rest : List Char)
  | word
deriving DecidableEq, Repr

namespace Argument

/-- The role of an argument. -/
def classify (argument : String) : Argument :=
  match argument.toList with
  | ['-', '-'] => .endOfOptions
  | '-' :: '-' :: body =>
    let name := String.ofList (body.takeWhile (· ≠ '='))
    match OptionName.ofLong? name with
    | none => .word
    | some option =>
      match body.dropWhile (· ≠ '=') with
      | [] => .long option none
      | _ :: value => .long option (some (String.ofList value))
  | '-' :: first :: rest =>
    if (first :: rest).all fun letter => (OptionName.ofLetter? letter).isSome
    then .letters first rest
    else .word
  | _ => .word

end Argument

namespace Options

/-- A setting that is not taken up yet, with its value once that is known. -/
structure Pending where
  setting : Setting
  value : Option String := none
deriving DecidableEq, Repr

/-- The options read so far, those that were given, and the setting that is to
be taken up next. -/
structure Progress where
  options : Options := {}
  given : List OptionName := []
  pending : Option Pending := none
deriving DecidableEq, Repr

/-- The setting whose value is the next argument. -/
def Progress.waiting? (progress : Progress) : Option Setting :=
  (progress.pending.filter (·.value.isNone)).map Pending.setting

/-- The options with the value of a setting. -/
def assign
    (options : Options)
    (setting : Setting)
    (value : String) :
    Except UsageError Options :=
  match setting with
  | .maxSolutions =>
    match Numeral.readCount? value.toList with
    | some count => .ok { options with maxSolutions := some count }
    | none => .error .valueValidation
  | .dimacs =>
    if ".dimacs".toList.isSuffixOf value.toList then
      .ok { options with dimacs := value }
    else
      .error .valueValidation
  | .output =>
    if value = "" then .error .invalidValue
    else .ok { options with output := value }
  | .comment => .ok { options with comment := value }
  | .solver => .ok { options with solver := some value }
  | .solverArgument =>
    .ok { options with
      solverArguments := options.solverArguments ++ [value] }
  | .blocking =>
    match Blocking.read? value with
    | some blocking => .ok { options with blocking }
    | none => .error .invalidValue
  | .logLevel =>
    match Level.read? value with
    | some level => .ok { options with logLevel := level }
    | none => .error .valueValidation
  | .problemFile =>
    if value = "" then .error .invalidValue
    else .ok { options with problemFile := some value }

/-- Notes that an option is given.  Only arguments of the solver may be given
more than once. -/
def Progress.give
    (progress : Progress)
    (name : OptionName) :
    Except UsageError Progress :=
  if name ∈ progress.given ∧ name ≠ .setting .solverArgument then
    .error .argumentConflict
  else
    .ok { progress with given := name :: progress.given }

/-- Takes up a setting with its value. -/
def Progress.set
    (progress : Progress)
    (setting : Setting)
    (value : String) :
    Except UsageError Progress := do
  let given ← progress.give (.setting setting)
  let options ← given.options.assign setting value
  .ok { given with options }

/-- Takes up the setting that is pending, which must have its value by now. -/
def Progress.settle (progress : Progress) : Except UsageError Progress :=
  match progress.pending with
  | none => .ok progress
  | some { value := none, .. } => .error .invalidValue
  | some { setting, value := some value } =>
    { progress with pending := none }.set setting value

/-- Takes up a flag. -/
def Progress.raise
    (progress : Progress)
    (flag : Flag) :
    Except UsageError Progress := do
  match flag with
  | .help => .error .help
  | .version => .error .version
  | .allSolutions =>
    let given ← progress.give (.flag flag)
    .ok { given with options := { given.options with allSolutions := true } }
  | .verbose =>
    let given ← progress.give (.flag flag)
    .ok { given with options := { given.options with verbose := true } }
  | .dimacsOnly =>
    let given ← progress.give (.flag flag)
    .ok { given with options := { given.options with dimacsOnly := true } }

/-- Takes up a cluster of option letters.  The letters after that of a setting
are its value, and without any it waits for the next argument. -/
def Progress.takeLetters
    (progress : Progress) :
    List Char → Except UsageError Progress
  | [] => .ok progress
  | letter :: rest =>
    match OptionName.ofLetter? letter with
    | none => .ok progress
    | some (.flag flag) => do
      let raised ← progress.raise flag
      raised.takeLetters rest
    | some (.setting setting) =>
      if rest.isEmpty then .ok { progress with pending := some { setting } }
      else progress.set setting (String.ofList rest)

/-- Takes up an option. -/
def Progress.takeOption
    (progress : Progress) :
    Argument → Except UsageError Progress
  | .long (.flag flag) _ => progress.raise flag
  | .long (.setting setting) (some value) => progress.set setting value
  | .long (.setting setting) none =>
    .ok { progress with pending := some { setting } }
  | .letters first rest => progress.takeLetters (first :: rest)
  | .endOfOptions | .word => .ok progress

/-- Whether an argument is the value of a setting that waits for one.  Only an
argument of the solver may look like an option. -/
def isValue (setting : Setting) (argument : String) : Bool :=
  setting = .solverArgument || Argument.classify argument = .word

/-- Reads arguments as long as no word of the problem was met. -/
def readArguments
    (progress : Progress) :
    List String → Except UsageError Options
  | [] => progress.settle.map Progress.options
  | argument :: rest =>
    match progress.waiting?.filter (isValue · argument) with
    | some setting =>
      readArguments
        { progress with pending := some { setting, value := some argument } }
        rest
    | none =>
      match Argument.classify argument with
      | .long (.flag _) (some _) => .error .tooManyValues
      | .word => do
        let settled ← progress.settle
        .ok { settled.options with problem := argument :: rest }
      | .endOfOptions => do
        let settled ← progress.settle
        .ok { settled.options with problem := rest }
      | option => do
        let settled ← progress.settle
        let next ← settled.takeOption option
        readArguments next rest

/-- Reads the arguments of a command line.  A problem comes from a file or from
the words, not from both. -/
def read (arguments : List String) : Except UsageError Options := do
  let options ← readArguments {} arguments
  if options.problemFile.isSome && !options.problem.isEmpty then
    .error .argumentConflict
  else
    .ok options

/-- The settings of a session that the options ask for, where the environment
may name a solver. -/
def settings (options : Options) (environment : Option String) : Settings :=
  { program := options.solver.getD (Settings.ofEnvironment environment).program
    arguments := options.solverArguments
    input := options.dimacs
    output := options.output
    comment := options.comment
    blocking := options.blocking
    limit := options.maxSolutions }

/-- The level of the events that are shown. -/
def level (options : Options) : Level :=
  if options.verbose && options.logLevel ≠ .trace then .debug
  else options.logLevel

end Options
end OrderEncoding

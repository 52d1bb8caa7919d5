import OrderEncoding.Script.Call
import OrderEncoding.Solving.Backend

/-!
# Running scripts

A command is run by running the commands it is made of.  How deep this goes is
bounded, and so are the turns of loops.
-/

namespace OrderEncoding
namespace Script

namespace Run

/-- The greatest number of turns of a loop. -/
def greatestTurns : Nat := 1000000

/-- How deep commands may lie in one another, calls of functions included. -/
def greatestDepth : Nat := 2000

/-- Runs a command whose status is looked at or not, and gives its status. -/
def runPart (engine : Engine) (tested : Bool) (command : Command) :
    Act Nat := do
  modify fun shell => { shell with tested }
  engine.run command
  return (← get).status

/-- Takes signals after a command that is not part of a condition; if the shell
is to end with the first failure, it ends here. -/
def conclude (engine : Engine) (tested : Bool) : Act Unit := do
  Control.settle engine
  let shell ← get
  if shell.status ≠ 0 && shell.hasOption 'e' && !tested then throw .exit

/-! ### Loops -/

/-- How a turn of a loop ended. -/
inductive Turn (α : Type) where
  | done (result : α)
  /-- The next turn follows. -/
  | next
  /-- The loop is over. -/
  | last

/-- Carries out a part of a turn. -/
def turn (action : Act α) : Act (Turn α) := do
  try return .done (← action)
  catch
    | .breaking levels =>
      if levels ≤ 1 then return .last else throw (.breaking (levels - 1))
    | .continuing levels =>
      if levels ≤ 1 then return .next else throw (.continuing (levels - 1))
    | interrupt => throw interrupt

/-- Carries out an action that is a loop. -/
def asLoop (action : Act Unit) : Act Unit := do
  let before := (← get).loops
  modify fun shell => { shell with loops := before + 1 }
  try action
  finally modify fun shell => { shell with loops := before }

/-- Runs the turns of a loop with a condition.  The status is that of the last
body. -/
def runTurns (engine : Engine) (tested untilSuccess : Bool)
    (test body : Command) : Nat → Nat → Act Unit
  | 0, _ => Act.fail "too many turns"
  | count + 1, status => do
    let next := runTurns engine tested untilSuccess test body count
    match ← turn (runPart engine true test) with
    | .last => Call.setStatus status
    | .next => next status
    | .done result =>
      if decide (result = 0) = untilSuccess then Call.setStatus status
      else
        match ← turn (runPart engine tested body) with
        | .last => Call.setStatus 0
        | .next => next 0
        | .done status => next status

/-- Runs a body for each value of a variable. -/
def runEach (engine : Engine) (tested : Bool) (name : Octets)
    (body : Command) : List Octets → Nat → Act Unit
  | [], status => Call.setStatus status
  | value :: rest, _ => do
    Act.assign name value
    match ← turn (runPart engine tested body) with
    | .last => Call.setStatus 0
    | .next => runEach engine tested name body rest 0
    | .done status => runEach engine tested name body rest status

/-! ### Choices -/

/-- Whether a text matches one of some patterns. -/
def matchesAny (engine : Engine) (text : Octets) :
    List Word → Act Bool
  | [] => return false
  | word :: rest => do
    let letters ← Expansion.letters engine { toFields := false } word
    if (Pattern.read letters).isMatch text.toList then return true
    else matchesAny engine text rest

/-- Runs the first case that matches. -/
def runCases (engine : Engine) (tested : Bool) (text : Octets) :
    List Case → Act Unit
  | [] => Call.setStatus 0
  | .case patterns body :: rest => do
    if ← matchesAny engine text patterns then
      match body with
      | .empty => Call.setStatus 0
      | _ => let _ ← runPart engine tested body
    else runCases engine tested text rest

/-! ### Processes -/

/-- Runs a command as the whole of a shell in a process of its own. -/
def runWhole (engine : Engine) (tested : Bool) (body : Command) : Act Unit :=
  Control.finish engine do let _ ← runPart engine tested body

/-- Runs commands one after the other, each on the output of the one before. -/
def runPipeline (engine : Engine) (tested : Bool) :
    Option Nat → List Command → Act Unit
  | _, [] => return
  | input, first :: rest => do
    let before ← get
    let reading :=
      match input with
      | some number => before.withDescriptor 0 (some number)
      | none => before
    if rest.isEmpty then
      Act.isolated do
        modify fun shell => { shell with descriptors := reading.descriptors }
        runWhole engine tested first
    else
      let (piped, number) := reading.withChannel (.pipe "")
      let writing := piped.withDescriptor 1 (some number)
      set { piped with descriptors := before.descriptors }
      Act.isolated do
        modify fun shell => { shell with descriptors := writing.descriptors }
        runWhole engine tested first
      runPipeline engine tested (some number) rest

/-- Runs a command in the background, which is over at once. -/
def runBackground (engine : Engine) (body : Command) : Act Unit := do
  Act.isolated do
    let (shell, channel) := (← get).withChannel .nowhere
    set (shell.withDescriptor 0 (some channel))
    runWhole engine false body
  Call.setStatus 0

/-- Runs a command in a shell of its own with redirections. -/
def runSubshell (engine : Engine) (tested : Bool) (line : Nat)
    (body : Command) (redirections : List Redirection) : Act Unit := do
  modify fun shell => { shell with line }
  let targets ← redirections.mapM (Target.ofRedirection engine)
  Act.isolated do
    targets.forM Target.aim
    runWhole engine tested body

/-- Runs a compound command with redirections. -/
def runRedirected (engine : Engine) (tested : Bool) (line : Nat)
    (body : Command) (redirections : List Redirection) : Act Unit := do
  modify fun shell => { shell with line }
  let targets ← redirections.mapM (Target.ofRedirection engine)
  Act.redirecting targets
    (do let _ ← runPart engine tested body)
    (Call.setStatus faultStatus)

/-! ### All commands -/

/-- Runs a command by means of what runs its parts. -/
def runCommand (engine : Engine) (command : Command) : Act Unit := do
  let shell ← get
  let tested := shell.tested
  match command with
  | .empty => return
  | .simple line assignments words redirections =>
    Call.runSimple engine line assignments words redirections
    conclude engine tested
  | .sequence first second =>
    let _ ← runPart engine tested first
    let _ ← runPart engine tested second
  | .background body => runBackground engine body
  | .both first second =>
    if (← runPart engine true first) = 0 then
      let _ ← runPart engine tested second
  | .either first second =>
    if (← runPart engine true first) ≠ 0 then
      let _ ← runPart engine tested second
  | .negation body =>
    let status ← runPart engine true body
    Call.setStatus (if status = 0 then 1 else 0)
  | .pipeline commands =>
    runPipeline engine tested none commands
    conclude engine tested
  | .subshell line body redirections =>
    runSubshell engine tested line body redirections
    conclude engine tested
  | .redirected line body redirections =>
    runRedirected engine tested line body redirections
  | .branch test yes no =>
    if (← runPart engine true test) = 0 then
      let _ ← runPart engine tested yes
    else
      match no with
      | .empty => Call.setStatus 0
      | _ => let _ ← runPart engine tested no
  | .loop untilSuccess test body =>
    asLoop (runTurns engine tested untilSuccess test body greatestTurns 0)
  | .each line name words body =>
    modify fun shell => { shell with line }
    let fields ← words.mapM (Expansion.fields engine)
    asLoop (runEach engine tested name body fields.flatten 0)
  | .choose line subject cases =>
    modify fun shell => { shell with line }
    let text ← Expansion.text engine subject
    runCases engine tested text cases
  | .define _ name body =>
    modify fun shell =>
      { shell with
        functions :=
          (name, body) :: shell.functions.filter (·.1 ≠ name)
        status := 0 }

/-- What runs commands that lie in one another as deep as given. -/
def engine : Nat → Engine
  | 0 =>
    { run := fun _ => Act.fail "too deep"
      runInside := fun _ => Act.fail "too deep"
      expand := fun _ _ => Act.fail "too deep" }
  | depth + 1 =>
    { run := fun command => runCommand (engine depth) command
      runInside := fun body => do
        Act.isolated (runWhole (engine depth) false body)
        Control.yieldToSignals
      expand := fun mode parts => Expansion.glyphs (engine depth) mode parts }

end Run

/-! ### Programs -/

/-- The text that a new shell runs: its first operand, or what that leads to.
The shell gets its name and its arguments. -/
def takeScript (arguments : List Octets) : Act Octets := do
  let letters := (arguments.headD "").toList
  if letters.head? = some '-' && letters.contains 'c' then
    Builtin.setOptions true (letters.tail.filter (· ≠ 'c'))
    match arguments.tail with
    | [] => Act.fail "-c requires an argument"
    | script :: rest =>
      modify fun shell =>
        { shell with name := rest.headD shell.name, arguments := rest.tail }
      return script
  else
    match ← Builtin.takeOptions arguments with
    | none | some [] => return ""
    | some (path :: rest) =>
      match ← Tool.readPath path with
      | .error fault =>
        Act.fail ("cannot open " ++ path ++ ": " ++ openFaultText .input fault)
      | .ok script =>
        modify fun shell => { shell with name := path, arguments := rest }
        return script

/-- The whole run of a shell. -/
def runShell (arguments : List Octets) : Act Nat := do
  let engine := Run.engine Run.greatestDepth
  let script ← takeScript arguments
  modify fun shell => { shell with line := 1 }
  Control.finish engine (Control.runText engine false script)
  return (← get).status

/-- The shell in place of which a program is run. -/
def startingShell (name : Octets) (files : Files) : Shell :=
  { name
    files
    line := 0
    entries := [{ name := "IFS", value := some " \t\n" }]
    channels := #[.nowhere, .pipe "", .pipe ""]
    descriptors := [(0, 0), (1, 1), (2, 2)] }

/-- The run of a program that ended as given in a shell. -/
def runOf (shell : Shell) (ending : Ending) : ProgramRun :=
  let octets (number : Nat) : Content :=
    match shell.channels[number]? with
    | some (.pipe octets) => Octets.content octets
    | _ => .text ""
  { ending, output := octets 1, errors := octets 2, files := shell.files }

/-- The program that a routine is when it is called by a name. -/
def programOf (name : Octets) (routine : Routine) : Program :=
  fun arguments files =>
    let shell := startingShell name files
    match (routine (arguments.map Octets.ofText)).run shell with
    | .ok status shell => runOf shell (.exited (status % 256))
    | .error (.killed signal) shell => runOf shell (.signalled signal)
    | .error _ shell => runOf shell (.exited (shell.status % 256))

/-- The names by which a shell is called. -/
def shellNames : List String := ["sh", "/bin/sh", "/usr/bin/sh"]

/-- The program that a command line names, as it is found without scripts. -/
def programs : Programs := fun text =>
  let name := Octets.ofText text
  if text ∈ shellNames then some (programOf name runShell)
  else
    match Callee.ofProgram {} name with
    | .program found => some (programOf name (Call.runProgram found))
    | _ => none

end Script
end OrderEncoding

import OrderEncoding.Script.Builtin

/-!
# Control

Texts that are run as scripts, traps, the end of a shell, and the commands that
decide what runs next.
-/

namespace OrderEncoding
namespace Script
namespace Control

/-- Runs the lines of a text.  Each one is read after the one before it was run.
The first argument bounds the number of lines, and the last one tells whether a
line was run. -/
def runLines (engine : Engine) (tested : Bool) :
    Nat → Source → Bool → Act Unit
  | 0, _, _ => return
  | count + 1, source, ran => do
    let documents := (← get).documents
    match Reader.readLine.run { source with documents } with
    | .error fault =>
      modify fun shell => { shell with line := fault.line }
      Act.fail ("Syntax error: " ++ fault.reason)
    | .ok (none, _) =>
      if !ran then modify fun shell => { shell with status := 0 }
    | .ok (some .empty, source) => runLines engine tested count source ran
    | .ok (some command, source) =>
      modify fun shell =>
        { shell with
          documents := source.documents
          readLine := source.line
          tested }
      engine.run command
      runLines engine tested count source true

/-- Runs a text. -/
def runText (engine : Engine) (tested : Bool) (text : Octets) : Act Unit :=
  let octets := text.toList
  runLines engine tested (octets.length + 1) { rest := octets } false

/-! ### Traps -/

/-- Runs the action of a trap, which leaves the status as it was. -/
def runTrap (engine : Engine) (action : Octets) : Act Unit := do
  let before ← get
  set { before with trapStatus := some before.status }
  runText engine false action
  modify fun shell =>
    { shell with status := before.status, trapStatus := before.trapStatus }

/-- What a shell does on a signal; `none` if the signal ends it. -/
def reaction? (shell : Shell) (signal : Nat) : Option Octets :=
  match (shell.traps.lookup signal).filter fun _ => signal ≠ 9 with
  | some action => some action
  | none =>
    if signal ∈ Signal.harmless ++ Signal.holding then some "" else none

/-- Ends the shell if a signal that was sent to it does so. -/
def yieldToSignals : Act Unit := do
  let shell ← get
  if shell.depth = 0 then
    if let some signal := shell.pending.find? fun signal =>
        (reaction? shell signal).isNone then
      throw (.killed signal)

/-- Takes the signals that were sent to the shell.  One that ends it comes
first; the others come in the order of their numbers, each of them once. -/
def settle (engine : Engine) : Act Unit := do
  let shell ← get
  if shell.depth = 0 && !shell.pending.isEmpty then
    yieldToSignals
    set { shell with pending := [] }
    let signals := shell.pending.eraseDups.mergeSort (· ≤ ·)
    signals.forM fun signal => do
      let action := ((reaction? (← get) signal).getD "")
      if action ≠ "" then runTrap engine action

/-- Carries out the action of a whole shell, and then the trap for its end,
which may set another status only by an exit of its own. -/
def finish (engine : Engine) (action : Act Unit) : Act Unit := do
  try action
  catch
    | .killed signal => throw (.killed signal)
    | _ => pure ()
  let before ← get
  if let some trap := before.traps.lookup 0 then
    set { before with
      traps := before.traps.filter (·.1 ≠ 0)
      trapStatus := some before.status }
    let restore : Act Unit :=
      modify fun shell => { shell with status := before.status }
    try
      runText engine false trap
      restore
    catch
      | .killed signal => throw (.killed signal)
      | .exit => pure ()
      | _ => restore

/-! ### Commands -/

/-- Ends the shell; in a trap with the status from before it. -/
def exit : Routine := fun arguments => do
  match arguments with
  | [] =>
    modify fun shell =>
      { shell with status := shell.trapStatus.getD shell.status }
  | text :: _ =>
    let status ← Builtin.demandCount text
    modify fun shell => { shell with status }
  throw .exit

/-- Returns from a function. -/
def goBack : Routine := fun arguments => do
  if let text :: _ := arguments then
    let status ← Builtin.demandCount text
    modify fun shell => { shell with status }
  throw .returning

/-- Leaves loops, or goes on with the next turn of one. -/
def leave (interrupt : Nat → Interrupt) : Routine := fun arguments => do
  let levels ←
    match arguments with
    | [] => pure 1
    | text :: _ =>
      let levels ← Builtin.demandCount text
      if levels = 0 then Act.fail ("Illegal number: " ++ text)
      pure levels
  let shell ← get
  let levels := min levels shell.loops
  if 0 < levels then
    set { shell with status := 0 }
    throw (interrupt levels)
  return 0

/-- Runs its arguments as a script. -/
def eval (engine : Engine) : Routine := fun arguments => do
  runText engine (← get).tested (" ".intercalate arguments)
  return (← get).status

/-- The commands that decide what runs next, by name. -/
def routines (engine : Engine) : List (Octets × Routine) :=
  [("exit", exit), ("return", goBack), ("break", leave .breaking),
    ("continue", leave .continuing), ("eval", eval engine)]

/-- The routine of a command that the shell carries out itself. -/
def routine? (engine : Engine) (name : Octets) : Option Routine :=
  ((routines engine).lookup name).orElse fun _ => Builtin.routines.lookup name

/-- The names of the commands that the shell carries out itself. -/
def names : List Octets :=
  Builtin.routines.map Prod.fst ++
    ["break", "continue", "eval", "exec", "exit", "return"]

end Control
end Script
end OrderEncoding

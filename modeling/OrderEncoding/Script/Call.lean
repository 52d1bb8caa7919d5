import OrderEncoding.Script.Control
import OrderEncoding.Script.Redirecting
import OrderEncoding.Script.Tool

/-!
# Calling commands

The first word of a command names a command that the shell carries out itself, a
function of the script, or a program.  A simple command is called after its
words, its redirections and its assignments were expanded, in this order.
Assignments in front of a command last as long as it runs, unless it is a
special one.
-/

namespace OrderEncoding
namespace Script

/-! ### Looking for commands -/

/-- What a name stands for where a command is called. -/
inductive Callee where
  /-- A command of the shell whose faults end the shell. -/
  | special
  | function (body : Command)
  /-- Any other command of the shell. -/
  | builtin
  | program (name : Octets)
  /-- Something that cannot be run. -/
  | unusable
  | missing

namespace Callee

/-- Commands of the shell that are found as programs too. -/
def doubles : List Octets :=
  ["[", "echo", "false", "kill", "printf", "test", "true"]

/-- The names of the programs that scripts find. -/
def programs : List Octets := Tool.routines.map Prod.fst ++ doubles

/-- The directories with programs. -/
def programDirectories : List String := ["/bin", "/usr/bin"]

/-- What a path leads to, if it is to be run. -/
def atPath (files : Files) (path : Octets) : Callee :=
  match files.resolve (Octets.text path) with
  | .error .tooLong => .unusable
  | .error _ => .missing
  | .ok place =>
    let name := Octets.ofText place.name
    if files.isDirectory place || place.plain = Files.nullDevice ||
        (files.lookup? place.plain).isSome then .unusable
    else if place.absolute && place.parent.plain ∈ programDirectories &&
        name ∈ programs then .program name
    else .missing

/-- The program that a name stands for. -/
def ofProgram (files : Files) (name : Octets) : Callee :=
  if name = "" then .unusable
  else if name.toList.contains '/' then atPath files name
  else if name ∈ programs then .program name
  else .missing

/-- What a name stands for. -/
def ofName (shell : Shell) (name : Octets) : Callee :=
  if name ∈ specialNames then .special
  else
    match shell.function? name with
    | some body => .function body
    | none =>
      if name ∈ Control.names then .builtin else ofProgram shell.files name

end Callee

namespace Call

/-! ### Running what was found -/

/-- Gives a command its status. -/
def setStatus (status : Nat) : Act Unit :=
  modify fun shell => { shell with status }

/-- Commands that take assignments as arguments. -/
def declaringCommands : List Octets := ["export", "local", "readonly"]

/-- The fields of the words of a command. -/
def expandWords (engine : Engine) (words : List Word) : Act (List Octets) :=
  words.foldlM (fun fields word => do
    let declares := fields.head?.any (· ∈ declaringCommands)
    if declares && Reader.isAssignment word then
      return fields ++ [← Expansion.text engine word]
    else return fields ++ (← Expansion.fields engine word)) []

/-- Runs a function. -/
def callFunction (engine : Engine) (body : Command)
    (arguments : List Octets) : Act Unit := do
  let before ← get
  set { before with
    arguments
    loops := 0
    functionDepth := before.functionDepth + 1
    locals := [] }
  let restore : Act Unit := modify fun after =>
    let restored := after.locals.foldl (fun shell (name, old) =>
      match old with
      | some entry => shell.withVariable entry
      | none => shell.withoutVariable name) after
    { restored with
      arguments := before.arguments
      loops := before.loops
      functionDepth := before.functionDepth
      locals := before.locals }
  try engine.run body
  catch
    | .returning => pure ()
    | interrupt => throw interrupt
  finally restore

/-- Says that a program cannot be run, and gives the status.  What is looked
for in directories counts as not found unless the shell gives way to it. -/
def refuse (inPlace : Bool) (name : Octets) (callee : Callee) : Act Nat := do
  match callee with
  | .missing =>
    Act.warn (name ++ ": not found")
    return 127
  | _ =>
    Act.warn (name ++ ": Permission denied")
    return if inPlace || name.toList.contains '/' then 126 else 127

/-- Runs a program.  Its faults are those of a command. -/
def runProgram (name : Octets) (arguments : List Octets) : Act Nat := do
  let routine := (Tool.routines.lookup name).orElse fun _ =>
    Builtin.routines.lookup name
  try (routine.getD fun _ => return 127) arguments
  catch
    | .fault => return faultStatus
    | interrupt => throw interrupt

/-- Goes on as a program. -/
def exec : Routine := fun words => do
  match words with
  | [] => return 0
  | called :: arguments =>
    match Callee.ofProgram (← get).files called with
    | .program name =>
      modify fun shell =>
        { shell with traps := shell.traps.filter (·.1 ≠ 0) }
      setStatus (← runProgram name arguments)
    | callee => setStatus (← refuse true called callee)
    throw .exit

/-- Runs a command of the shell itself.  A fault of a special one ends the
shell. -/
def runOwn (engine : Engine) (special : Bool) (name : Octets)
    (arguments : List Octets) : Act Unit := do
  let speaker := (← get).speaker
  modify fun shell => { shell with speaker := some name }
  let routine : Routine :=
    if name = "exec" then exec
    else (Control.routine? engine name).getD fun _ => return 127
  try setStatus (← routine arguments)
  catch
    | .fault =>
      setStatus faultStatus
      if special then throw .fault
    | interrupt => throw interrupt
  finally modify fun shell => { shell with speaker }

/-- Gives the variable of an assignment its value. -/
def assign (assignment : Octets) : Act Unit := do
  let (name, value) := Builtin.declaration assignment
  Act.assign name (value.getD "")

/-- Expands assignments one after the other and makes each before the next. -/
def makeAssignments (engine : Engine) (words : List Word) :
    Act (List Octets) :=
  words.mapM fun word => do
    let assignment ← Expansion.text engine word
    assign assignment
    return assignment

/-- Carries out an action, after which variables are what they were before. -/
def keeping (names : List Octets) (action : Act Unit) : Act Unit := do
  let before ← get
  let restore : Act Unit := modify fun shell =>
    names.foldl (fun shell name =>
      match before.entry? name with
      | some entry => shell.withVariable entry
      | none => shell.withoutVariable name) shell
  try action
  finally restore

/-- The names that assignments give values. -/
def assignedNames (words : List Word) : List Octets :=
  words.filterMap fun word =>
    match word with
    | .plain text _ :: _ => some (Builtin.declaration text).1
    | _ => none

/-- Shows a command that is about to run, if this is asked for. -/
def trace (channel : Option Nat) (texts : List Octets) : Act Unit := do
  let shell ← get
  if shell.hasOption 'x' then
    if let some number := channel then
      set (shell.written number ("+ " ++ " ".intercalate texts ++ "\n"))

/-- Runs a command that was expanded. -/
def invoke (engine : Engine) (callee : Callee) (name : Octets)
    (arguments : List Octets) : Act Unit := do
  match callee with
  | .special => runOwn engine true name arguments
  | .builtin => runOwn engine false name arguments
  | .function body => callFunction engine body arguments
  | .program program => setStatus (← runProgram program arguments)
  | .unusable | .missing => setStatus (← refuse false name callee)

/-- Runs a simple command. -/
def runSimple (engine : Engine) (line : Nat) (assignments words : List Word)
    (redirections : List Redirection) : Act Unit := do
  let entry ← get
  set { entry with line, outputStatus := none }
  let fields ← expandWords engine words
  let targets ← redirections.mapM (Target.ofRedirection engine)
  let shell ← get
  let errors := shell.channelOf? 2
  match fields with
  | [] =>
    Act.redirecting targets (do
      let made ← makeAssignments engine assignments
      if !assignments.isEmpty then trace errors made
      setStatus ((← get).outputStatus.getD 0)) (setStatus faultStatus)
  | name :: arguments =>
    let callee := Callee.ofName shell name
    let special :=
      match callee with
      | .special => true
      | _ => false
    let refused : Act Unit := do
      setStatus faultStatus
      if special then throw .fault
    let body : Act Unit := do
      let made ← makeAssignments engine assignments
      trace errors (made ++ fields)
      modify fun shell => { shell with tested := entry.tested }
      invoke engine callee name arguments
    if fields = ["exec"] then
      if ← Act.openAll targets then body else refused
    else if special then Act.redirecting targets body refused
    else
      keeping (assignedNames assignments)
        (Act.redirecting targets body refused)

end Call
end Script
end OrderEncoding

import OrderEncoding.Script.Number
import OrderEncoding.Script.Source

/-!
# Running shells

A running shell has variables, functions, the files, and descriptors that lead
to channels.  An action of a shell changes it, and may be interrupted: by the
end of the shell, by a fault, by a jump out of a loop or a function, or by a
signal.
-/

namespace OrderEncoding
namespace Script

/-- What a descriptor leads to. -/
inductive Channel where
  /-- Nothing comes from here, and everything vanishes. -/
  | nowhere
  /-- What is written can be read once. -/
  | pipe (octets : Octets)
  /-- A file by its plain path, read and written at a position. -/
  | file (path : String) (position : Nat) (extending : Bool)
  | directory
deriving DecidableEq, Repr

/-- A variable of a shell. -/
structure ShellVariable where
  name : Octets
  value : Option Octets
  /-- Whether the value is protected from changes. -/
  fixed : Bool := false
deriving DecidableEq, Repr

/-- A running shell. -/
structure Shell where
  name : Octets := "sh"
  arguments : List Octets := []
  entries : List ShellVariable := []
  functions : List (Octets × Command) := []
  documents : Array Word := #[]
  files : Files := {}
  status : Nat := 0
  /-- The status of the last command whose output was taken. -/
  outputStatus : Option Nat := none
  /-- The letters of the options that are set, the last one first. -/
  options : List Char := []
  /-- All channels that were opened, by number. -/
  channels : Array Channel := #[]
  /-- The numbers of the channels of the descriptors. -/
  descriptors : List (Nat × Nat) := []
  /-- What is done on a signal; zero stands for the end of the shell. -/
  traps : List (Nat × Octets) := []
  /-- Signals that were sent to the shell and had no effect yet. -/
  pending : List Nat := []
  /-- How many shells there are around this one. -/
  depth : Nat := 0
  line : Nat := 1
  /-- The line up to which the script was read. -/
  readLine : Nat := 1
  /-- The command that complains. -/
  speaker : Option Octets := none
  /-- Whether somebody looks at the status of the command that runs. -/
  tested : Bool := false
  /-- The status before the trap that runs. -/
  trapStatus : Option Nat := none
  loops : Nat := 0
  functionDepth : Nat := 0
  /-- Variables of the running function, with what they were before. -/
  locals : List (Octets × Option ShellVariable) := []

/-- Why an action does not go on. -/
inductive Interrupt where
  /-- The shell ends with its status. -/
  | exit
  /-- The shell cannot go on; this was said. -/
  | fault
  | returning
  | breaking (levels : Nat)
  | continuing (levels : Nat)
  | killed (signal : Nat)
deriving DecidableEq, Repr

/-- An action of a shell. -/
abbrev Act := EStateM Interrupt Shell

/-- The status of a shell with a fault. -/
def faultStatus : Nat := 2

/-- The number of the process of a shell and of those inside it. -/
def ownProcess : Nat := 1000

namespace Shell

/-- Whether an option is set. -/
def hasOption (shell : Shell) (letter : Char) : Bool :=
  letter ∈ shell.options

/-- The variable of a name. -/
def entry? (shell : Shell) (name : Octets) : Option ShellVariable :=
  shell.entries.find? (·.name = name)

/-- The value of a variable. -/
def value? (shell : Shell) (name : Octets) : Option Octets :=
  (shell.entry? name).bind ShellVariable.value

/-- The value of a variable, or nothing. -/
def value (shell : Shell) (name : Octets) : Octets :=
  (shell.value? name).getD ""

/-- The separators of fields. -/
def separators (shell : Shell) : Octets :=
  (shell.value? "IFS").getD " \t\n"

/-- The shell with a variable, old or new. -/
def withVariable (shell : Shell) (entry : ShellVariable) : Shell :=
  { shell with
    entries := entry :: shell.entries.filter (·.name ≠ entry.name) }

/-- The shell without a variable. -/
def withoutVariable (shell : Shell) (name : Octets) : Shell :=
  { shell with entries := shell.entries.filter (·.name ≠ name) }

/-- The function of a name. -/
def function? (shell : Shell) (name : Octets) : Option Command :=
  (shell.functions.find? (·.1 = name)).map Prod.snd

/-- The number of the channel of a descriptor. -/
def channelOf? (shell : Shell) (descriptor : Nat) : Option Nat :=
  shell.descriptors.lookup descriptor

/-- The channel of a descriptor. -/
def channel? (shell : Shell) (descriptor : Nat) : Option Channel :=
  (shell.channelOf? descriptor).bind fun number => shell.channels[number]?

/-- The shell with a descriptor that leads to a channel, or to nothing. -/
def withDescriptor (shell : Shell) (descriptor : Nat) (number : Option Nat) :
    Shell :=
  let others := shell.descriptors.filter (·.1 ≠ descriptor)
  { shell with
    descriptors := (number.map fun number => (descriptor, number)).toList ++
      others }

/-- The shell with one more channel, and its number. -/
def withChannel (shell : Shell) (channel : Channel) : Shell × Nat :=
  ({ shell with channels := shell.channels.push channel }, shell.channels.size)

/-- Octets with others in place of what is at a position. -/
def overwrite (octets : Octets) (position : Nat) (written : Octets) : Octets :=
  let old := octets.toList
  let padding := List.replicate (position - old.length) '\x00'
  String.ofList (old.take position ++ padding ++ written.toList ++
    old.drop (position + written.length))

/-- The shell after octets were written to a channel.  A file that is gone takes
them along. -/
def written (shell : Shell) (number : Nat) (octets : Octets) : Shell :=
  match shell.channels[number]? with
  | some (.pipe before) =>
    { shell with
      channels := shell.channels.setIfInBounds number
        (.pipe (before ++ octets)) }
  | some (.file path position extending) =>
    match shell.files.lookup? path with
    | none => shell
    | some content =>
      let before := Octets.ofContent content
      let position := if extending then before.length else position
      let after :=
        if position = before.length then before ++ octets
        else overwrite before position octets
      { shell with
        files := shell.files.insert path (Octets.content after)
        channels := shell.channels.setIfInBounds number
          (.file path (position + octets.length) extending) }
  | _ => shell

/-- What is still to be read from a channel. -/
def unread (shell : Shell) : Channel → Octets
  | .pipe octets => octets
  | .file path position _ =>
    match shell.files.lookup? path with
    | some content =>
      String.ofList ((Octets.ofContent content).toList.drop position)
    | none => ""
  | _ => ""

/-- A channel after some octets were read from it. -/
def advanced (count : Nat) : Channel → Channel
  | .pipe octets => .pipe (String.ofList (octets.toList.drop count))
  | .file path position extending => .file path (position + count) extending
  | channel => channel

/-- The shell after some octets were read from a descriptor. -/
def consumed (shell : Shell) (descriptor count : Nat) : Shell :=
  match shell.channelOf? descriptor with
  | some number =>
    { shell with
      channels := shell.channels.modify number (advanced count) }
  | none => shell

/-- The shell around a shell after the latter is over: its changes to variables
and descriptors are undone, and what it did to files and channels stays. -/
def around (before after : Shell) : Shell :=
  { before with
    files := after.files
    channels := after.channels
    documents := after.documents
    status := after.status % 256
    pending := after.pending }

end Shell

/-- What the shell says of a path that cannot be opened. -/
def openFaultText (opening : Opening) : PathFault → Octets
  | .missing | .notDirectory =>
    if opening = .input then "No such file" else "Directory nonexistent"
  | .directory => "Is a directory"
  | .tooLong => "File name too long"
  | .malformed => "Invalid argument"
  | .denied => "Permission denied"

namespace Act

/-- Writes octets to a descriptor, and tells whether it leads somewhere. -/
def write (descriptor : Nat) (octets : Octets) : Act Bool := do
  let shell ← get
  match shell.channelOf? descriptor with
  | some number =>
    if octets ≠ "" then set (shell.written number octets)
    return true
  | none => return false

/-- Writes octets to the output of errors. -/
def writeError (octets : Octets) : Act Unit := do
  let _ ← write 2 octets

/-- Says something about the running command. -/
def warn (message : Octets) : Act Unit := do
  let shell ← get
  let speaker := (shell.speaker.map (· ++ ": ")).getD ""
  writeError (shell.name ++ ": " ++ Numeral.ofNat shell.line ++ ": " ++
    speaker ++ message ++ "\n")

/-- Ends with a fault of the shell. -/
def fail (message : Octets) : Act α := do
  warn message
  modify fun shell => { shell with status := faultStatus }
  throw .fault

/-- The value of an expected number. -/
def demandNumber (number : Option α) (text : Octets) : Act α :=
  match number with
  | some value => pure value
  | none => fail ("Illegal number: " ++ text)

/-- Gives a variable a value. -/
def assign (name value : Octets) : Act Unit := do
  let shell ← get
  let old := (shell.entry? name).getD { name, value := none }
  if old.fixed then fail (name ++ ": is read only")
  set (shell.withVariable { old with value := some value })

/-- Carries out an action in a shell inside this one, whose changes to the shell
are undone.  A signal that ends the shell ends both. -/
def isolated (action : Act Unit) : Act Unit := do
  let before ← get
  set
    { before with
      depth := before.depth + 1
      readLine := 1
      traps := before.traps.filter (·.2 = "") }
  try action
  catch
    | .killed signal => throw (.killed signal)
    | _ => pure ()
  modify (Shell.around before)

/-- Carries out an action with other descriptors and returns to the present
ones. -/
def withDescriptors (descriptors : List (Nat × Nat)) (action : Act α) :
    Act α := do
  let before := (← get).descriptors
  modify fun shell => { shell with descriptors }
  try action
  finally modify fun shell => { shell with descriptors := before }

/-- What an action writes to its output. -/
def captured (action : Act Unit) : Act Octets := do
  let (shell, number) := (← get).withChannel (.pipe "")
  set shell
  withDescriptors (shell.withDescriptor 1 (some number)).descriptors action
  match (← get).channels[number]? with
  | some (.pipe octets) => return octets
  | _ => return ""

/-- Opens a file and gives the number of its channel. -/
def openFile (path : Octets) (opening : Opening) : Act Nat := do
  let shell ← get
  let add (files : Files) (channel : Channel) : Act Nat := do
    let (shell, number) := { shell with files }.withChannel channel
    set shell
    return number
  let refuse (fault : Octets) : Act Nat :=
    fail ((if opening = .input then "cannot open " else "cannot create ") ++
      path ++ ": " ++ fault)
  match shell.files.locate (Octets.text path) with
  | .error fault =>
    if fault = .directory && opening = .input then
      add shell.files .directory
    else refuse (openFaultText opening fault)
  | .ok plain =>
    if plain = Files.nullDevice then add shell.files .nowhere
    else
      let old := shell.files.lookup? plain
      let fresh := Files.insert shell.files plain (.text "")
      match opening with
      | .input =>
        if old.isNone then refuse (openFaultText opening .missing)
        else add shell.files (.file plain 0 false)
      | .output => add fresh (.file plain 0 false)
      | .extending =>
        add (if old.isSome then shell.files else fresh) (.file plain 0 true)

/-- Says that a descriptor leads nowhere.  Nothing is heard of this when the
descriptor of errors was to be changed. -/
def badDescriptor (target : Nat) (name : Octets) : Act Unit := do
  if target ≠ 2 then warn (name ++ ": Bad file descriptor")
  modify fun shell => { shell with status := faultStatus }
  throw .fault

/-- The descriptor that a text denotes, or a sign that one is to be closed. -/
def demandDescriptor (text : Octets) : Act (Option Nat) := do
  match text.toList with
  | ['-'] => return none
  | [digit] =>
    if digit.isDigit then return some (digit.toNat - '0'.toNat)
  | _ => pure ()
  modify fun shell => { shell with line := shell.readLine }
  fail "Syntax error: Bad fd number"

/-- Makes a descriptor lead to where another one leads, or nowhere. -/
def copyDescriptor (target : Nat) (source : Option Nat) : Act Unit := do
  let shell ← get
  match source with
  | none => set (shell.withDescriptor target none)
  | some source =>
    match shell.channelOf? source with
    | some number => set (shell.withDescriptor target (some number))
    | none => badDescriptor target (Numeral.ofNat source)

end Act

end Script
end OrderEncoding

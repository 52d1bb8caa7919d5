import OrderEncoding.Script.Expansion
import OrderEncoding.Script.Printing
import OrderEncoding.Script.Reader
import OrderEncoding.Script.Test
import OrderEncoding.Signal

/-!
# Commands of the shell

The commands that the shell carries out itself and that need nothing but its
state.  Each one gives a status; a fault ends a special command's shell and any
other command.
-/

namespace OrderEncoding
namespace Script

/-- A command that is called with arguments and gives a status. -/
abbrev Routine := List Octets → Act Nat

namespace Builtin

/-- What is written by a routine that buffers its output. -/
def print (octets : Octets) : Act Nat := do
  if octets = "" || (← Act.write 1 octets) then return 0
  else
    let name := ((← get).speaker).getD ""
    Act.warn (name ++ ": I/O error")
    return 1

/-- Options at the start of arguments, each with its value if it takes one, and
the operands. -/
structure Given where
  options : List (Char × Octets) := []
  operands : List Octets := []

/-- Reads a cluster of options. -/
def readCluster (known valued : List Char) :
    List Char → List Octets → Act (List (Char × Octets) × List Octets)
  | [], rest => return ([], rest)
  | letter :: more, rest => do
    if letter ∈ valued then
      if !more.isEmpty then return ([(letter, String.ofList more)], rest)
      else
        match rest with
        | value :: rest => return ([(letter, value)], rest)
        | [] =>
          Act.fail ("No arg for -" ++ String.singleton letter ++ " option")
    else if letter ∈ known then
      let (options, rest) ← readCluster known valued more rest
      return ((letter, "") :: options, rest)
    else Act.fail ("Illegal option -" ++ String.singleton letter)

/-- Reads options.  The first argument bounds the number of clusters. -/
def readOptionsWithin (known valued : List Char) :
    Nat → List Octets → Act Given
  | 0, arguments => return { operands := arguments }
  | _, [] => return {}
  | count + 1, first :: rest => do
    match first.toList with
    | ['-', '-'] => return { operands := rest }
    | '-' :: letter :: letters =>
      let (options, rest) ← readCluster known valued (letter :: letters) rest
      let given ← readOptionsWithin known valued count rest
      return { given with options := options ++ given.options }
    | _ => return { operands := first :: rest }

/-- Reads options. -/
def readOptions (known valued : List Char) (arguments : List Octets) :
    Act Given :=
  readOptionsWithin known valued (arguments.length + 1) arguments

/-- The count that an argument denotes. -/
def demandCount (text : Octets) : Act Nat :=
  Act.demandNumber (readCount? text) text

/-! ### Printing and testing -/

/-- Prints arguments. -/
def echo : Routine := fun arguments => print (echoText arguments)

/-- Prints a format. -/
def printf : Routine := fun arguments => do
  match (← readOptions [] [] arguments).operands with
  | [] => Act.fail "usage: printf format [arg ...]"
  | format :: values =>
    let result := Formatting.run format values
    result.complaints.reverse.forM Act.warn
    match result.fault with
    | none =>
      let status ← print result.output
      return if result.complaints.isEmpty then status else 1
    | some fault =>
      Act.warn fault
      let _ ← print result.output
      modify fun shell => { shell with status := faultStatus }
      throw .fault

/-- What a path leads to. -/
def target (shell : Shell) (path : Octets) : Test.Target :=
  match shell.files.resolve (Octets.text path) with
  | .error _ => .nothing
  | .ok place =>
    if shell.files.isDirectory place then .directory
    else if place.plain = Files.nullDevice then .device
    else
      match shell.files.lookup? place.plain with
      | some content => .file content.bytes.length
      | none => .nothing

/-- Decides a condition. -/
def test : Routine := fun arguments => do
  match Test.value (target (← get)) arguments with
  | .ok value => return if value then 0 else 1
  | .error fault => Act.fail fault

/-- Decides a condition in brackets. -/
def bracket : Routine := fun arguments => do
  if arguments.getLast? = some "]" then test arguments.dropLast
  else Act.fail "missing ]"

/-! ### Variables -/

/-- A variable that an argument declares, and the value it is given. -/
def declaration (argument : Octets) : Octets × Option Octets :=
  let octets := argument.toList
  let name := octets.takeWhile (· ≠ '=')
  (String.ofList name,
    if name.length < octets.length then
      some (String.ofList (octets.drop (name.length + 1)))
    else none)

/-- Demands that a text is a name. -/
def demandName (name : Octets) : Act Unit := do
  if !isName name then Act.fail (name ++ ": bad variable name")

/-- Declares variables. -/
def declare (change : ShellVariable → ShellVariable) : Routine :=
  fun arguments => do
    arguments.forM fun argument => do
      let (name, value) := declaration argument
      demandName name
      if let some value := value then Act.assign name value
      modify fun shell =>
        shell.withVariable
          (change ((shell.entry? name).getD { name, value := none }))
    return 0

/-- Removes variables or functions. -/
def unset : Routine := fun arguments => do
  let given ← readOptions ['v', 'f'] [] arguments
  let functions := given.options.getLast?.any (·.1 = 'f')
  given.operands.forM fun name => do
    let shell ← get
    if functions then
      set { shell with functions := shell.functions.filter (·.1 ≠ name) }
    else
      demandName name
      if (shell.entry? name).any ShellVariable.fixed then
        Act.fail (name ++ ": is read only")
      set (shell.withoutVariable name)
  return 0

/-- Makes variables belong to the running function. -/
def makeLocal : Routine := fun arguments => do
  if (← get).functionDepth = 0 then Act.fail "not in a function"
  arguments.forM fun argument => do
    let (name, value) := declaration argument
    if name ≠ "-" then
      demandName name
      modify fun shell =>
        if shell.locals.any (·.1 = name) then shell
        else
          { shell with
            locals := (name, shell.entry? name) :: shell.locals }
      if let some value := value then Act.assign name value
  return 0

/-- Drops the first arguments. -/
def shift : Routine := fun arguments => do
  let count ←
    match arguments with
    | [] => pure 1
    | count :: _ => demandCount count
  let shell ← get
  if shell.arguments.length < count then Act.fail "can't shift that many"
  set { shell with arguments := shell.arguments.drop count }
  return 0

/-- The letters of the options of the shell: it ends with the first command that
fails, a parameter that is not set is a fault, commands are shown. -/
def optionLetters : List Char := ['e', 'u', 'x']

/-- Sets or clears options. -/
def setOptions (on : Bool) (letters : List Char) : Act Unit :=
  letters.forM fun letter => do
    if letter ∉ optionLetters then
      Act.fail ("Illegal option -" ++ String.singleton letter)
    modify fun shell =>
      let others := shell.options.filter (· ≠ letter)
      { shell with options := if on then letter :: others else others }

/-- Takes options of the shell; `none` if no operands are to be set. -/
def takeOptions : List Octets → Act (Option (List Octets))
  | [] => return none
  | first :: rest => do
    match first.toList with
    | ['-', '-'] => return some rest
    | '-' :: letters =>
      setOptions true letters
      takeOptions rest
    | '+' :: letters =>
      setOptions false letters
      takeOptions rest
    | _ => return some (first :: rest)

/-- Sets options and arguments. -/
def setShell : Routine := fun arguments => do
  if let some operands ← takeOptions arguments then
    modify fun shell => { shell with arguments := operands }
  return 0

/-! ### Reading -/

/-- The octets up to the end of a line, with those after a backslash quoted, how
many octets they take, and whether the line is complete. -/
def readLetters (raw : Bool) : List Char → List Letter × Nat × Bool
  | [] => ([], 0, false)
  | '\n' :: _ => ([], 1, true)
  | '\x00' :: rest =>
    let (letters, count, complete) := readLetters raw rest
    (letters, count + 1, complete)
  | '\\' :: next :: rest =>
    if raw then
      let (letters, count, complete) := readLetters raw (next :: rest)
      ({ octet := '\\', quoted := false } :: letters, count + 1, complete)
    else
      let (letters, count, complete) := readLetters raw rest
      if next = '\n' then (letters, count + 2, complete)
      else ({ octet := next, quoted := true } :: letters, count + 2, complete)
  | octet :: rest =>
    let (letters, count, complete) := readLetters raw rest
    ({ octet, quoted := false } :: letters, count + 1, complete)

/-- Letters cut into a number of fields.  The last one goes to the end, without
blanks there, and without a separator there when it has no other. -/
def splitLetters (separators : List Char) :
    Nat → List Letter → List (List Letter)
  | 0, _ => []
  | count + 1, letters =>
    let separates (letter : Letter) : Bool :=
      !letter.quoted && letter.octet ∈ separators
    let isBlank (letter : Letter) : Bool :=
      separates letter && letter.octet ∈ [' ', '\t', '\n']
    let letters := letters.dropWhile isBlank
    let field := letters.takeWhile (!separates ·)
    let after := (letters.drop field.length).dropWhile isBlank
    let rest :=
      if after.head?.any separates then after.tail.dropWhile isBlank else after
    if count = 0 then
      if rest.isEmpty then [field]
      else [(letters.reverse.dropWhile isBlank).reverse]
    else field :: splitLetters separators count rest

/-- Reads a line into variables. -/
def read : Routine := fun arguments => do
  let given ← readOptions ['r'] ['p'] arguments
  if given.operands.isEmpty then Act.fail "arg count"
  let shell ← get
  let unread := ((shell.channel? 0).map shell.unread).getD ""
  let raw := given.options.any (·.1 = 'r')
  let (letters, count, complete) := readLetters raw unread.toList
  set (shell.consumed 0 count)
  let fields := splitLetters shell.separators.toList given.operands.length
    letters
  (given.operands.zip fields).forM fun (name, field) => do
    demandName name
    Act.assign name (Letter.text field)
  return if complete then 0 else 1

/-! ### Signals -/

/-- The signal that a text names or numbers; zero stands for none, or for the
end of the shell. -/
def signal? (text : Octets) : Option Nat :=
  if !text.toList.isEmpty && text.toList.all Char.isDigit then
    (readCount? text).filter (· ≤ Signal.greatest)
  else if text.toUpper = "EXIT" then some 0
  else Signal.ofName? text

/-- Sends a signal to a process.  The shell itself feels it after the command. -/
def sendSignal (signal : Nat) (target : Octets) : Act Nat := do
  let process ← demandCount target
  if process = ownProcess then
    if signal ≠ 0 then
      modify fun shell => { shell with pending := shell.pending ++ [signal] }
    return 0
  else
    Act.warn "No such process\n"
    return 1

/-- What is said of a wrong use of `kill`. -/
def killUsage : Octets :=
  "Usage: kill [-s sigspec | -signum | -sigspec] [pid | job]... or\n" ++
    "kill -l [exitstatus]"

/-- Sends signals. -/
def kill : Routine := fun arguments => do
  let named :=
    match (arguments.headD "").toList with
    | '-' :: letter :: more => signal? (String.ofList (letter :: more))
    | _ => none
  let given ←
    if named.isSome then pure { operands := arguments.tail }
    else readOptions [] ['s'] arguments
  let signal ←
    match given.options.getLast? with
    | none => pure (named.getD 15)
    | some (_, value) =>
      match signal? value with
      | some signal => pure signal
      | none => Act.fail ("invalid signal number or name: " ++ value)
  if given.operands.isEmpty then Act.fail killUsage
  let statuses ← given.operands.mapM (sendSignal signal)
  return statuses.foldl max 0

/-- Sets what is done on signals. -/
def trap : Routine := fun arguments => do
  let given ← readOptions [] [] arguments
  let (action, signals) : Option Octets × List Octets :=
    match given.operands with
    | [] => (none, [])
    | [single] => (none, [single])
    | action :: signals =>
      if (readCount? action).isSome then (none, action :: signals)
      else (if action = "-" then none else some action, signals)
  signals.foldlM (fun status text => do
    match signal? text with
    | none =>
      Act.writeError ("trap: " ++ text ++ ": bad trap\n")
      return 1
    | some signal =>
      modify fun shell =>
        let others := shell.traps.filter (·.1 ≠ signal)
        { shell with
          traps := (action.map fun action => (signal, action)).toList ++
            others }
      return status) 0

/-- The routines by name. -/
def routines : List (Octets × Routine) :=
  [(":", fun _ => return 0), ("true", fun _ => return 0),
    ("false", fun _ => return 1), ("echo", echo), ("printf", printf),
    ("test", test), ("[", bracket), ("export", declare id),
    ("readonly", declare fun entry => { entry with fixed := true }),
    ("unset", unset), ("local", makeLocal), ("shift", shift),
    ("set", setShell), ("read", read), ("kill", kill), ("trap", trap),
    -- What runs in the background is over at once.
    ("wait", fun _ => return 0)]

end Builtin

end Script
end OrderEncoding

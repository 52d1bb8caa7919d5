import OrderEncoding.Script.Builtin

/-!
# Tools

The programs with which scripts show, copy, move, make and remove files.  Their
options come in any order with the operands, and their complaints begin with
their names.
-/

namespace OrderEncoding
namespace Script
namespace Tool

/-! ### Arguments and complaints -/

/-- Says something in the name of a program. -/
def complain (name message : Octets) : Act Unit :=
  Act.writeError (name ++ ": " ++ message ++ "\n")

/-- Says that a program was not called rightly. -/
def refuse (name message : Octets) : Act Nat := do
  complain name message
  Act.writeError ("Try '" ++ name ++ " --help' for more information.\n")
  return 1

/-- The letters of the options among arguments, and the operands. -/
def readArguments : List Octets → List Char × List Octets
  | [] => ([], [])
  | "--" :: rest => ([], rest)
  | first :: rest =>
    let (letters, operands) := readArguments rest
    match first.toList with
    | '-' :: letter :: more => (letter :: more ++ letters, operands)
    | _ => (letters, first :: operands)

/-- Runs a program on arguments with options that it knows. -/
def run (name : Octets) (known : List Char) (arguments : List Octets)
    (body : List Char → List Octets → Act Nat) : Act Nat :=
  let (letters, operands) := readArguments arguments
  match letters.find? (· ∉ known) with
  | none => body letters operands
  | some letter =>
    refuse name ("invalid option -- '" ++ String.singleton letter ++ "'")

/-- A name in quotes, as messages show it. -/
def quote (name : Octets) : Octets :=
  if name.toList.contains '\'' && !name.toList.contains '"' then
    "\"" ++ name ++ "\""
  else "'" ++ name ++ "'"

/-- What is said of a path that leads to no file. -/
def faultText : PathFault → Octets
  | .missing => "No such file or directory"
  | .notDirectory => "Not a directory"
  | .directory => "Is a directory"
  | .tooLong => "File name too long"
  | .malformed => "Invalid argument"
  | .denied => "Permission denied"

/-- Carries out a step for each operand and gives the greatest status. -/
def forOperands (operands : List Octets) (step : Octets → Act Nat) :
    Act Nat := do
  return (← operands.mapM step).foldl max 0

/-! ### Contents -/

/-- What is still to be read from the input. -/
def takeInput : Act (Except Octets Octets) := do
  let shell ← get
  match shell.channel? 0 with
  | none => return .error "Bad file descriptor"
  | some .directory => return .error (faultText .directory)
  | some channel =>
    let octets := shell.unread channel
    set (shell.consumed 0 octets.length)
    return .ok octets

/-- The content of a file. -/
def readPath (path : Octets) : Act (Except PathFault Octets) := do
  return ((← get).files.read (Octets.text path)).map Octets.ofContent

/-- The content of a file, or of the input for `-`. -/
def fetch (path : Octets) : Act (Except Octets Octets) := do
  if path = "-" then takeInput
  else return (← readPath path).mapError faultText

/-- Changes the files, or says why this is not possible. -/
def change (step : Files → Except PathFault Files)
    (refused : PathFault → Act Nat) : Act Nat := do
  let shell ← get
  match step shell.files with
  | .ok files =>
    set { shell with files }
    return 0
  | .error fault => refused fault

/-- Gives a file a content, or says why this is not possible. -/
def store (path content : Octets) (refused : PathFault → Act Nat) : Act Nat :=
  change (fun files => files.write (Octets.text path) (Octets.content content))
    refused

/-! ### The tools -/

/-- Prints files one after the other. -/
def cat : Routine := fun arguments =>
  run "cat" ['u'] arguments fun _ operands =>
    forOperands (if operands.isEmpty then ["-"] else operands) fun path => do
      match ← fetch path with
      | .ok text =>
        let _ ← Act.write 1 text
        return 0
      | .error fault =>
        complain "cat" (path ++ ": " ++ fault)
        return 1

/-- The last step of a path. -/
def lastStep (path : Octets) : Octets :=
  let kept := path.toList.reverse.dropWhile (· = '/')
  String.ofList (kept.takeWhile (· ≠ '/')).reverse

/-- Takes operands one after the other to the last one, or into it if it is a
directory. -/
def toTarget (name : Octets) (operands : List Octets)
    (step : Octets → Octets → Act Nat) : Act Nat := do
  match operands.reverse with
  | [] => refuse name "missing file operand"
  | [single] =>
    refuse name ("missing destination file operand after " ++ quote single)
  | target :: sources =>
    let kind := Builtin.target (← get) target
    if kind = .directory then
      forOperands sources.reverse fun source =>
        step source (target ++ "/" ++ lastStep source)
    else
      match sources with
      | [source] => step source target
      | _ =>
        let fault : PathFault :=
          if kind = .nothing then .missing else .notDirectory
        complain name ("target " ++ quote target ++ ": " ++ faultText fault)
        return 1

/-- Whether two paths lead to one place. -/
def samePlace (left right : Octets) : Act Bool := do
  let place (path : Octets) : Act (Option Place) := do
    return ((← get).files.resolve (Octets.text path)).toOption
  let first ← place left
  return first.isSome && first = (← place right)

/-- Copies one file. -/
def copyFile (name source target : Octets) : Act Nat := do
  match ← readPath source with
  | .error .directory =>
    complain name ("-r not specified; omitting directory " ++ quote source)
    return 1
  | .error fault =>
    complain name ("cannot stat " ++ quote source ++ ": " ++ faultText fault)
    return 1
  | .ok content =>
    if ← samePlace source target then
      complain name (quote source ++ " and " ++ quote target ++
        " are the same file")
      return 1
    else
      store target content fun fault => do
        complain name ("cannot create regular file " ++ quote target ++ ": " ++
          faultText fault)
        return 1

/-- Copies files. -/
def cp : Routine := fun arguments =>
  run "cp" ['f'] arguments fun _ operands =>
    toTarget "cp" operands (copyFile "cp")

/-- Removes one file. -/
def removeFile (quiet : Bool) (path : Octets) : Act Nat :=
  change (fun files => files.remove (Octets.text path)) fun fault => do
    if quiet && fault = .missing then return 0
    else
      complain "rm" ("cannot remove " ++ quote path ++ ": " ++ faultText fault)
      return 1

/-- Moves files. -/
def mv : Routine := fun arguments =>
  run "mv" ['f'] arguments fun _ operands =>
    toTarget "mv" operands fun source target => do
      let status ← copyFile "mv" source target
      if status = 0 then removeFile true source else return status

/-- Removes files. -/
def rm : Routine := fun arguments =>
  run "rm" ['f'] arguments fun letters operands =>
    if operands.isEmpty && !letters.contains 'f' then
      refuse "rm" "missing operand"
    else forOperands operands (removeFile (letters.contains 'f'))

/-- Makes directories. -/
def mkdir : Routine := fun arguments =>
  run "mkdir" [] arguments fun _ operands =>
    if operands.isEmpty then refuse "mkdir" "missing operand"
    else
      forOperands operands fun path =>
        change (fun files => files.makeDirectory (Octets.text path))
          fun fault => do
            let reason :=
              if fault = .directory then "File exists" else faultText fault
            complain "mkdir" ("cannot create directory " ++ quote path ++ ": " ++
              reason)
            return 1

/-- Makes empty files where there are none. -/
def touch : Routine := fun arguments =>
  run "touch" [] arguments fun _ operands =>
    if operands.isEmpty then refuse "touch" "missing file operand"
    else
      forOperands operands fun path => do
        if Builtin.target (← get) path ≠ .nothing then return 0
        else
          store path "" fun fault => do
            complain "touch" ("cannot touch " ++ quote path ++ ": " ++
              faultText fault)
            return 1

/-- The tools by name. -/
def routines : List (Octets × Routine) :=
  [("cat", cat), ("cp", cp), ("mkdir", mkdir), ("mv", mv), ("rm", rm),
    ("sleep", fun _ => return 0), ("touch", touch)]

end Tool
end Script
end OrderEncoding

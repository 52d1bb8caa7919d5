import OrderEncoding.Text.Utf8

/-!
# Files

The files below a working directory, or below the root, by their paths.  A path
leads to a file, to a place where nothing is, or to one that can hold no file.
-/

namespace OrderEncoding

/-- The content of a file. -/
inductive Content where
  | text (value : String)
  /-- Bytes that are not the encoding of a text. -/
  | binary (bytes : List UInt8)
deriving DecidableEq, Repr

namespace Content

/-- The content that consists of the given bytes. -/
def ofBytes (bytes : List UInt8) : Content :=
  match Text.Utf8.decode? bytes with
  | some value => .text value
  | none => .binary bytes

/-- The bytes of a content. -/
def bytes : Content → List UInt8
  | .text value => Text.Utf8.encode value
  | .binary bytes => bytes

/-- The text of a content, if it is one. -/
def text? : Content → Option String
  | .text value => some value
  | .binary _ => none

/-- The text of a content, malformed bytes replaced. -/
def display : Content → String
  | .text value => value
  | .binary bytes => Text.Utf8.decodeLossy bytes

end Content

/-- Why a path leads to no file. -/
inductive PathFault where
  /-- Nothing is there. -/
  | missing
  /-- A file is on the way, where only a directory can be. -/
  | notDirectory
  /-- A directory is there, where only a file can be. -/
  | directory
  /-- The path, or a step of it, is too long. -/
  | tooLong
  /-- No path is written like this. -/
  | malformed
  /-- The place is not to be touched. -/
  | denied
deriving DecidableEq, Repr

/-- A place that paths lead to: steps from the root, or from the working
directory; the latter may go up first. -/
structure Place where
  absolute : Bool := false
  steps : List String := []
deriving DecidableEq, Repr

namespace Place

/-- The plain path of a place: its steps joined by single slashes. -/
def plain (place : Place) : String :=
  (if place.absolute then "/" else "") ++ "/".intercalate place.steps

/-- The place that a step leads to.  Nothing is above the root. -/
def enter (place : Place) (step : String) : Place :=
  if step = ".." then
    match place.steps.getLast? with
    | none => if place.absolute then place else { place with steps := [step] }
    | some ".." => { place with steps := place.steps ++ [step] }
    | some _ => { place with steps := place.steps.dropLast }
  else
    { place with steps := place.steps ++ [step] }

/-- The place above. -/
def parent (place : Place) : Place := place.enter ".."

/-- The last step to a place. -/
def name (place : Place) : String := (place.steps.getLast?).getD ""

end Place

/-- A file with its path. -/
structure FileEntry where
  path : String
  content : Content
deriving DecidableEq, Repr

/-- Files, at most one of each path, and the directories known beside the
working directory, those above it and the common ones of the root.  Paths are
plain. -/
structure Files where
  entries : List FileEntry := []
  directories : List String := []
deriving DecidableEq, Repr

namespace Files

/-- The content of the file with the given plain path. -/
def lookup? (files : Files) (path : String) : Option Content :=
  (files.entries.find? (·.path = path)).map FileEntry.content

/-- The files with the given content at a plain path, old or new. -/
def insert (files : Files) (path : String) (content : Content) : Files :=
  { files with
    entries := { path, content } :: files.entries.filter (·.path ≠ path) }

/-- The files without the one of the given plain path. -/
def erase (files : Files) (path : String) : Files :=
  { files with entries := files.entries.filter (·.path ≠ path) }

/-- The files with the given plain paths; later ones win. -/
def ofList (entries : List FileEntry) : Files :=
  entries.foldl (fun files entry => files.insert entry.path entry.content) {}

/-- The files in the order of their paths. -/
def sorted (files : Files) : List FileEntry :=
  files.entries.mergeSort fun left right => left.path ≤ right.path

/-- The files that lie in the working directory itself, in order. -/
def present (files : Files) : List FileEntry :=
  files.sorted.filter fun entry => !entry.path.toList.contains '/'

/-- The greatest number of bytes of a step of a path. -/
def longestStep : Nat := 255

/-- The greatest number of bytes of a path. -/
def longestPath : Nat := 4095

/-- The device that swallows everything, and holds nothing. -/
def nullDevice : String := "/dev/null"

/-- Directories that are found at the root. -/
def rootDirectories : List String :=
  ["/bin", "/dev", "/etc", "/home", "/lib", "/opt", "/proc", "/root", "/run",
    "/sbin", "/sys", "/tmp", "/usr", "/usr/bin", "/usr/lib", "/var",
    "/var/tmp"]

/-- A path as a way: where it starts, and its steps without empty ones and those
that stay in place. -/
structure Route where
  start : Place
  steps : List String
  /-- Whether the path demands that a directory is at its end. -/
  toDirectory : Bool
deriving DecidableEq, Repr

/-- The route that a path describes. -/
def Route.ofPath (path : String) : Route :=
  let parts := (path.toList.splitOn '/').map String.ofList
  let still (part : String) : Bool := part = "" || part = "."
  { start := { absolute := path.toList.head? = some '/' }
    steps := parts.filter (!still ·)
    toDirectory := parts.getLast?.any still }

/-- The places on the way, the end included. -/
def Route.ways (route : Route) : List Place :=
  (List.range (route.steps.length + 1)).map fun count =>
    (route.steps.take count).foldl Place.enter route.start

/-- Whether a place is a directory. -/
def isDirectory (files : Files) (place : Place) : Bool :=
  if place.steps.isEmpty then true
  else if files.directories.contains place.plain then true
  else if place.absolute then rootDirectories.contains place.plain
  else place.steps.all (· = "..")

/-- What is wrong where a directory is needed and none is. -/
def directoryFault (files : Files) (place : Place) : PathFault :=
  if (files.lookup? place.plain).isSome || place.plain = nullDevice then
    .notDirectory
  else .missing

/-- The place after a step, which can only be taken from a directory. -/
def enter (files : Files) (place : Place) (step : String) :
    Except PathFault Place :=
  if !files.isDirectory place then .error (files.directoryFault place)
  else if longestStep < step.utf8ByteSize then .error .tooLong
  else .ok (place.enter step)

/-- The place that a path leads to, whatever is there. -/
def resolve (files : Files) (path : String) : Except PathFault Place := do
  let route := Route.ofPath path
  if path = "" then throw .missing
  if path.toList.contains '\x00' then throw .malformed
  if longestPath < path.utf8ByteSize then throw .tooLong
  let place ← route.steps.foldlM files.enter route.start
  if route.toDirectory && !files.isDirectory place then
    throw (files.directoryFault place)
  return place

/-- The plain path of the file that a path leads to. -/
def locate (files : Files) (path : String) : Except PathFault String := do
  let place ← files.resolve path
  if files.isDirectory place then throw .directory
  return place.plain

/-- The content of the file that a path leads to. -/
def read (files : Files) (path : String) : Except PathFault Content := do
  let plain ← files.locate path
  if plain = nullDevice then return .text ""
  match files.lookup? plain with
  | some content => return content
  | none => throw .missing

/-- The text of the file that a path leads to, if it is one. -/
def readText? (files : Files) (path : String) : Option String :=
  match files.read path with
  | .ok content => content.text?
  | .error _ => none

/-- The files after a content was written to a path. -/
def write
    (files : Files)
    (path : String)
    (content : Content) :
    Except PathFault Files := do
  let plain ← files.locate path
  if plain = nullDevice then return files
  return files.insert plain content

/-- The files after the one that a path leads to was removed. -/
def remove (files : Files) (path : String) : Except PathFault Files := do
  let plain ← files.locate path
  if plain = nullDevice then throw .denied
  match files.lookup? plain with
  | some _ => return files.erase plain
  | none => throw .missing

/-- The files with nothing at a path, unless the path is refused. -/
def clear (files : Files) (path : String) : Except PathFault Files :=
  match files.remove path with
  | .error .missing => .ok files
  | cleared => cleared

/-- The files with one more directory. -/
def makeDirectory (files : Files) (path : String) : Except PathFault Files := do
  let place ← (Route.ofPath path).steps.foldlM files.enter
    (Route.ofPath path).start
  if path = "" then throw .missing
  if files.isDirectory place || (files.lookup? place.plain).isSome then
    throw .directory
  return { files with directories := place.plain :: files.directories }

end Files
end OrderEncoding

import OrderEncoding.Script.Command
import OrderEncoding.Text.Numeral

/-!
# Script texts

What is still to be read of a script, and the steps that take octets from it.  A
backslash before a line feed joins two lines, outside of single quotes.
-/

namespace OrderEncoding
namespace Script

/-- How a redirection uses the word after it. -/
inductive Arrow where
  | file (opening : Opening)
  | copy
  /-- The word ends a document; tabs that begin its lines may be dropped. -/
  | document (dropTabs : Bool)
deriving DecidableEq, Repr

/-- A token of a script. -/
inductive Token where
  | word (word : Word)
  | keyword (text : Octets)
  | redirection (descriptor : Nat) (arrow : Arrow)
  | operator (text : Octets)
  | lineFeed
  | ending

namespace Token

/-- A token as a text in double quotes. -/
def quotedName (text : Octets) : Octets := "\"" ++ text ++ "\""

/-- What a token is called when it is out of place. -/
def name : Token → Octets
  | .word _ => "word"
  | .keyword text => quotedName text
  | .redirection _ _ => "redirection"
  | .operator text => quotedName text
  | .lineFeed => "newline"
  | .ending => "end of file"

end Token

/-- A document whose text is still to be read. -/
structure DueDocument where
  number : Nat
  /-- The line after the last one of the text. -/
  ending : Octets
  dropTabs : Bool
  /-- Whether parameters in the text keep their meaning. -/
  expanded : Bool

/-- What is still to be read of a script. -/
structure Source where
  rest : List Char
  line : Nat := 1
  /-- A token that is read once more. -/
  pushed : Option Token := none
  due : List DueDocument := []
  /-- The texts of all documents by number. -/
  documents : Array Word := #[]

/-- Why a script cannot be read. -/
structure ReadingFault where
  line : Nat
  reason : Octets

/-- A step that takes something from a script. -/
abbrev Reading := StateT Source (Except ReadingFault)

namespace Reading

/-- Gives up. -/
def refuse (reason : Octets) : Reading α := do
  throw { line := (← get).line, reason }

/-- The rest of a text after joined lines, and the number of the line there. -/
def joined : List Char → Nat → List Char × Nat
  | '\\' :: '\n' :: rest, line => joined rest (line + 1)
  | rest, line => (rest, line)

/-- Passes over joined lines. -/
def joinLines : Reading Unit :=
  modify fun source =>
    let (rest, line) := joined source.rest source.line
    { source with rest, line }

/-- The next octet as it stands, left in place. -/
def lookPlain : Reading (Option Char) := do
  return (← get).rest.head?

/-- The next octet, left in place. -/
def look : Reading (Option Char) := do
  joinLines
  lookPlain

/-- Drops the next octet. -/
def drop : Reading Unit :=
  modify fun source =>
    { source with
      rest := source.rest.tail
      line := source.line + if source.rest.head? = some '\n' then 1 else 0 }

/-- Takes the next octet as it stands. -/
def takePlain : Reading (Option Char) := do
  let octet ← lookPlain
  drop
  return octet

/-- Takes the next octet if it is the given one. -/
def accept (octet : Char) : Reading Bool := do
  if (← look) = some octet then
    drop
    return true
  else
    return false

/-- Takes octets as long as they satisfy a test.  The first argument bounds
their number. -/
def takeWhile (test : Char → Bool) : Nat → Reading (List Char)
  | 0 => return []
  | count + 1 => do
    match ← look with
    | some octet =>
      if test octet then
        drop
        return octet :: (← takeWhile test count)
      else
        return []
    | none => return []

/-- Takes all octets that satisfy a test. -/
def takeAll (test : Char → Bool) : Reading Octets := do
  return String.ofList (← takeWhile test ((← get).rest.length + 1))

/-- Runs a step on another text, and goes on with this one. -/
def onText (text : List Char) (step : Reading α) : Reading α := do
  let before ← get
  set { before with rest := text, pushed := none, due := [] }
  let result ← step
  let after ← get
  set { before with documents := after.documents }
  return result

end Reading

end Script
end OrderEncoding

import OrderEncoding.Formula
import OrderEncoding.Text.Blank

/-!
# Reading DIMACS text

Empty lines and comment lines are skipped.  A line that starts with `p ` is a
header; the last header counts, and the first one comes before all clauses.  The
words of the other lines, taken together, are numbers that list the literals of
each clause followed by `0`.
-/

namespace OrderEncoding

/-- Clauses of signed numbers, as a DIMACS file holds them. -/
structure NumberedClauses where
  atomCount : Nat
  clauses : List (List Int)
deriving DecidableEq, Repr

namespace Dimacs

/-- The counts that a header announces. -/
structure Header where
  atomCount : Nat
  clauseCount : Nat
deriving DecidableEq, Repr

/-- What has been read of a file. -/
structure Progress where
  header? : Option Header := none
  clauses : List (List Int) := []
  /-- The literals of the clause that is not ended yet. -/
  current : List Int := []
deriving DecidableEq, Repr

/-- A trimmed line by its role in a file. -/
inductive Line where
  | comment
  /-- A header, with the text after `p `. -/
  | header (rest : List Char)
  | literals (words : List (List Char))
deriving DecidableEq, Repr

/-- The role of a trimmed line. -/
def classify (line : List Char) : Line :=
  match line with
  | [] => .comment
  | ['c'] => .comment
  | 'c' :: ' ' :: _ => .comment
  | 'p' :: ' ' :: rest => .header rest
  | _ => .literals (Text.words line)

/-- Reads one of the counts of a header. -/
def readHeaderCount (word : List Char) : Except Failure Nat :=
  match Numeral.readCount? word with
  | some count => .ok count
  | none => .error (.malformed (.headerCount (String.ofList word)))

/-- Reads the text of a header after `p `. -/
def readHeader (rest : List Char) : Except Failure Header :=
  match Text.words rest with
  | [['c', 'n', 'f'], atoms, clauses] => do
    let atomCount ← readHeaderCount atoms
    let clauseCount ← readHeaderCount clauses
    .ok { atomCount, clauseCount }
  | _ => .error (.malformed (.header (String.ofList rest)))

/-- Takes up one number: `0` ends the current clause. -/
def Progress.push (progress : Progress) (number : Int) : Progress :=
  if number = 0 then
    { progress with
      clauses := progress.clauses ++ [progress.current]
      current := [] }
  else
    { progress with current := progress.current ++ [number] }

/-- Takes up the numbers of a line of literals. -/
def readLiterals
    (line : Nat)
    (progress : Progress) :
    List (List Char) → Except Failure Progress
  | [] => .ok progress
  | word :: rest =>
    match Numeral.readWord? word with
    | some number => readLiterals line (progress.push number) rest
    | none =>
      .error (.malformed (.clauseLiteral (String.ofList word) line))

/-- Takes up one line. -/
def readLine
    (number : Nat)
    (progress : Progress)
    (line : List Char) :
    Except Failure Progress :=
  match classify (Text.trim line) with
  | .comment => .ok progress
  | .header rest => do
    let header ← inContext (.line number) (readHeader rest)
    .ok { progress with header? := some header }
  | .literals words =>
    if progress.header?.isNone then
      .error (.malformed (.clauseBeforeHeader number))
    else
      readLiterals number progress words

/-- Takes up lines, which are numbered from the given number. -/
def readLines
    (number : Nat)
    (progress : Progress) :
    List (List Char) → Except Failure Progress
  | [] => .ok progress
  | line :: rest => do
    let next ← readLine number progress line
    readLines (number + 1) next rest

/-- Checks what has been read against the header. -/
def Progress.finish (progress : Progress) : Except Failure NumberedClauses :=
  match progress.header? with
  | none => .error (.malformed .missingHeader)
  | some header =>
    if progress.current ≠ [] then
      .error (.malformed .unterminatedClause)
    else if progress.clauses.length ≠ header.clauseCount then
      .error (.malformed
        (.clauseCount header.clauseCount progress.clauses.length))
    else
      match progress.clauses.flatten.find?
          fun number => header.atomCount < number.natAbs with
      | some number =>
        .error (.of (.literalOutOfRange number header.atomCount))
      | none =>
        .ok { atomCount := header.atomCount, clauses := progress.clauses }

end Dimacs

namespace NumberedClauses

/-- Reads the clauses of a DIMACS text. -/
def read (text : String) : Except Failure NumberedClauses := do
  let progress ← Dimacs.readLines 1 {} (Text.lines text.toList)
  progress.finish

end NumberedClauses

namespace Formula

/-- Adds clauses of signed numbers over registered atoms. -/
def addNumberedClause
    (formula : Formula)
    (numbers : List Int) :
    Except Failure Formula := do
  let literals ← numbers.mapM formula.literalOf
  formula.addRegisteredClause literals

/-- Reads a formula from a DIMACS text and the names of its atoms. -/
def ofDimacs (text : String) (atoms : List Atom) : Except Failure Formula := do
  let numbered ← NumberedClauses.read text
  if numbered.atomCount ≠ atoms.length then
    .error (.malformed (.nameCount numbered.atomCount atoms.length))
  else
    numbered.clauses.foldlM addNumberedClause (ofAtoms atoms)

end Formula
end OrderEncoding

import OrderEncoding.Text.Numeral

/-!
# Failures

A failure is a cause and the contexts in which it arose, outermost first.  Its
message is the text of every context and of the cause, joined by a colon and a
space.
-/

namespace OrderEncoding

/-- Why a text is not a problem, a clause file or a verdict. -/
inductive Malformation where
  | emptyDomain (name : String) (lower upper : Int)
  | lowerBoundOutOfRange (name : String) (lower : Int)
  | nestedBracket
  | unmatchedBracket
  | unclosedClause
  | incompleteDeclaration (words : List String)
  | variableName (name : String)
  | repeatedDeclaration (name : String)
  | domainBound (word name : String)
  | emptyClause
  | clauseBeforeHeader (line : Nat)
  | clauseLiteral (word : String) (line : Nat)
  | missingHeader
  | unterminatedClause
  | clauseCount (announced found : Nat)
  | headerCount (word : String)
  | header (rest : String)
  | nameCount (announced given : Nat)
  | noVerdict (line : String)
  | modelLiteral (word : String)
deriving DecidableEq, Repr

/-- What is wrong with an expression. -/
inductive Flaw where
  | zeroCoefficient
  | coefficientOutOfRange
  | constantOutOfRange
  | emptySide
  | malformedTerm
  | noRelation
  | severalRelations
  | unknownRelation
deriving DecidableEq, Repr

/-- The cause at the root of a failure. -/
inductive Cause where
  /-- A text does not follow its format. -/
  | malformed (malformation : Malformation)
  /-- A literal names a variable that is not declared. -/
  | unknownVariable (name : String)
  /-- An expression, given by its text, has a flaw. -/
  | expression (text : String) (flaw : Flaw)
  /-- An inequality of other than one term has no threshold. -/
  | severalTerms (inequality : String)
  /-- A model makes no order atom of a variable true. -/
  | noTrueOrderAtom (name : String)
  /-- A model gives a variable a value outside of its domain. -/
  | valueOutsideDomain (name : String) (value : Int)
  /-- An atom, given by its text, has no number. -/
  | unknownAtom (atom : String)
  /-- A signed number denotes no literal of a formula with so many atoms. -/
  | literalOutOfRange (number : Int) (atomCount : Nat)
  /-- A file or program that a solver call needs cannot be used. -/
  | artifact (path : String)
  /-- No problem was given. -/
  | noProblem
  /-- A backend gave up with a message of its own. -/
  | backend (message : String)
  /-- The operating system refused; what it said is not kept. -/
  | system
deriving DecidableEq, Repr

/-- What was being done when a failure arose. -/
inductive Context where
  | clause (index : Nat) (body : String)
  | literal (text : String)
  | declaration (name : String)
  | line (number : Nat)
  | encodingClause (index : Nat) (body : String)
  | exportingClause (index : Nat)
  | readingProblem
  | readingProblemFile (path : String)
  | writingInstance
  | callingSolver
  | startingSolver (program : String)
  | readingOutput
  | readingVerdict
  | seekingSolution (number : Nat)
deriving DecidableEq, Repr

/-- A cause and the contexts in which it arose, outermost first. -/
structure Failure where
  contexts : List Context := []
  cause : Cause
deriving DecidableEq, Repr

namespace Malformation

/-- The text of a malformation. -/
def text : Malformation → String
  | emptyDomain name lower upper =>
    "empty domain [" ++ Numeral.ofInt lower ++ ", " ++ Numeral.ofInt upper ++
      "] for variable '" ++ name ++ "'"
  | lowerBoundOutOfRange name lower =>
    "lower bound " ++ Numeral.ofInt lower ++ " of variable '" ++ name ++
      "' is out of range"
  | nestedBracket => "nested '[' in clause"
  | unmatchedBracket => "unmatched ']'"
  | unclosedClause => "unterminated clause, missing ']'"
  | incompleteDeclaration words =>
    "malformed variable declaration '" ++ " ".intercalate words ++ "'"
  | variableName name => "invalid variable name '" ++ name ++ "'"
  | repeatedDeclaration name => "variable '" ++ name ++ "' declared twice"
  | domainBound word name =>
    "invalid bound '" ++ word ++ "' for variable '" ++ name ++ "'"
  | emptyClause => "empty clause"
  | clauseBeforeHeader line =>
    "clause before header at line " ++ Numeral.ofNat line
  | clauseLiteral word line =>
    "invalid literal '" ++ word ++ "' at line " ++ Numeral.ofNat line
  | missingHeader => "missing 'p cnf' header"
  | unterminatedClause => "last clause is not terminated by 0"
  | clauseCount announced found =>
    "header announces " ++ Numeral.ofNat announced ++ " clauses, found " ++
      Numeral.ofNat found
  | headerCount word => "invalid count '" ++ word ++ "'"
  | header rest => "invalid header 'p " ++ rest ++ "'"
  | nameCount announced given =>
    "header announces " ++ Numeral.ofNat announced ++ " variables, " ++
      Numeral.ofNat given ++ " names given"
  | noVerdict line => "solver gave no verdict: '" ++ line ++ "'"
  | modelLiteral word => "invalid model literal '" ++ word ++ "'"

end Malformation

namespace Flaw

/-- The text of a flaw. -/
def text : Flaw → String
  | zeroCoefficient => "coefficient cannot equal 0"
  | coefficientOutOfRange => "coefficient out of range"
  | constantOutOfRange => "constant out of range"
  | emptySide => "empty side"
  | malformedTerm => "malformed term"
  | noRelation => "no relation found"
  | severalRelations => "more than one relation"
  | unknownRelation => "unknown relation"

end Flaw

namespace Cause

/-- The text of a cause, if it has one of its own. -/
def text? : Cause → Option String
  | malformed malformation => some ("parse error: " ++ malformation.text)
  | unknownVariable name => some ("unknown variable '" ++ name ++ "'")
  | expression text flaw =>
    some ("invalid expression '" ++ text ++ "': " ++ flaw.text)
  | severalTerms inequality =>
    some ("encoding error: hash translation needs exactly one term, got '" ++
      inequality ++ "'")
  | noTrueOrderAtom name =>
    some ("encoding error: no true order predicate for variable '" ++ name ++
      "'")
  | valueOutsideDomain name value =>
    some ("encoding error: value " ++ Numeral.ofInt value ++ " of '" ++ name ++
      "' is outside of its domain")
  | unknownAtom atom => some ("unknown boolean '" ++ atom ++ "'")
  | literalOutOfRange number atomCount =>
    some ("DIMACS literal " ++ Numeral.ofInt number ++ " is out of range (1..=" ++
      Numeral.ofNat atomCount ++ ")")
  | artifact path => some ("solver I/O failure on '" ++ path ++ "'")
  | noProblem => some "no problem given"
  | backend message => some message
  | system => none

end Cause

namespace Context

/-- The text of a context. -/
def text : Context → String
  | clause index body =>
    "clause " ++ Numeral.ofNat index ++ ": [" ++ body ++ "]"
  | literal text => "literal '" ++ text ++ "'"
  | declaration name => "declaration of '" ++ name ++ "'"
  | line number => "line " ++ Numeral.ofNat number
  | encodingClause index body =>
    "while encoding clause " ++ Numeral.ofNat index ++ ": [" ++ body ++ "]"
  | exportingClause index =>
    "clause " ++ Numeral.ofNat index ++ " cannot be exported"
  | readingProblem => "invalid problem"
  | readingProblemFile path => "cannot read problem file " ++ path
  | writingInstance => "cannot write the DIMACS instance"
  | callingSolver => "solver call failed"
  | startingSolver program => "cannot run solver '" ++ program ++ "'"
  | readingOutput => "cannot read the solver output"
  | readingVerdict => "invalid solver output"
  | seekingSolution number =>
    "while looking for solution " ++ Numeral.ofNat number

end Context

namespace Failure

/-- A failure with no context yet. -/
def of (cause : Cause) : Failure :=
  { cause }

/-- The failure of a text that does not follow its format. -/
def malformed (malformation : Malformation) : Failure :=
  of (.malformed malformation)

/-- The failure of an expression, given by its text, that has a flaw. -/
def expression (text : String) (flaw : Flaw) : Failure :=
  of (.expression text flaw)

/-- The same failure, seen from an outer context. -/
def within (failure : Failure) (context : Context) : Failure :=
  { failure with contexts := context :: failure.contexts }

/-- The texts of the contexts and of the cause, joined by a colon. -/
def message (failure : Failure) : String :=
  ": ".intercalate
    (failure.contexts.map Context.text ++ failure.cause.text?.toList)

end Failure

/-- The result of an action, its failure seen from an outer context. -/
def inContext
    (context : Context)
    (result : Except Failure α) :
    Except Failure α :=
  result.mapError (·.within context)

@[simp] theorem inContext_ok
    (context : Context)
    (value : α) :
    inContext context (.ok value) = .ok value := rfl

@[simp] theorem inContext_error
    (context : Context)
    (failure : Failure) :
    inContext context (.error failure : Except Failure α) =
      .error (failure.within context) := rfl

end OrderEncoding

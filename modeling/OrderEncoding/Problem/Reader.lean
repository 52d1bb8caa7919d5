import OrderEncoding.Problem.Basic
import OrderEncoding.Problem.Literal

/-!
# Reading a problem

The text of a problem holds declarations `name lower upper` and clauses in
brackets, in any order:

    x 1 3 y -1 0 [x+y<1] [-(-x+y>=-3) y=0]

A clause is a disjunction of literals, which are separated by blanks and may
stand in quotes.  Every clause may use all declared variables, those declared
after it included.
-/

namespace OrderEncoding
namespace Problem

/-- The text outside of the brackets, and the texts within them. -/
structure Outline where
  declarations : List Char := []
  bodies : List (List Char) := []
deriving DecidableEq, Repr

/-- Separates the bracketed bodies from the other text, where a bracket counts
as a blank.  The first argument is the part of an open body that has been read,
last character first. -/
def outlineFrom : Option (List Char) → List Char → Except Failure Outline
  | none, [] => .ok {}
  | some _, [] => .error (.malformed .unclosedClause)
  | some _, '[' :: _ => .error (.malformed .nestedBracket)
  | none, '[' :: rest => do
    let outline ← outlineFrom (some []) rest
    .ok { outline with declarations := ' ' :: outline.declarations }
  | none, ']' :: _ => .error (.malformed .unmatchedBracket)
  | some body, ']' :: rest => do
    let outline ← outlineFrom none rest
    .ok { declarations := ' ' :: outline.declarations
          bodies := body.reverse :: outline.bodies }
  | none, character :: rest => do
    let outline ← outlineFrom none rest
    .ok { outline with declarations := character :: outline.declarations }
  | some body, character :: rest => outlineFrom (some (character :: body)) rest

/-- Separates the bracketed bodies of a text from its declarations. -/
def outline (text : List Char) : Except Failure Outline :=
  outlineFrom none text

/-- Reads one bound of the named variable. -/
def readBound (name word : List Char) : Except Failure Int :=
  match Numeral.readWord? word with
  | some bound => .ok bound
  | none =>
    .error (.malformed (.domainBound (String.ofList word) (String.ofList name)))

/-- Reads one declaration, whose name must not be among those declared. -/
def readDeclaration
    (declared : List String)
    (name lower upper : List Char) :
    Except Failure Variable := do
  let text := String.ofList name
  if !isIdentifier name then
    .error (.malformed (.variableName text))
  else if text ∈ declared then
    .error (.malformed (.repeatedDeclaration text))
  else
    let lower ← readBound name lower
    let upper ← readBound name upper
    inContext (.declaration text) (Variable.ofBounds text lower upper)

/-- Reads declarations from words, three words each. -/
def readDeclarations
    (declared : List String) :
    List (List Char) → Except Failure (List Variable)
  | [] => .ok []
  | name :: lower :: upper :: rest => do
    let x ← readDeclaration declared name lower upper
    let others ← readDeclarations (declared ++ [x.name]) rest
    .ok (x :: others)
  | words =>
    .error (.malformed (.incompleteDeclaration (words.map String.ofList)))

/-- Whether a character is a quotation mark. -/
def isQuote (character : Char) : Bool :=
  character == '\'' || character == '"'

/-- The text without the quotation marks at its two ends. -/
def trimQuotes (text : List Char) : List Char :=
  ((text.dropWhile isQuote).reverse.dropWhile isQuote).reverse

/-- The literals of the body of a clause. -/
def literals (body : List Char) : List (List Char) :=
  ((Text.words body).map trimQuotes).filter (!·.isEmpty)

/-- Reads the body of a clause as a conjunctive form. -/
def readClause
    (scope : List Variable)
    (body : List Char) :
    Except Failure ConjunctiveForm :=
  match literals body with
  | [] => .error (.malformed .emptyClause)
  | texts => do
    let forms ← texts.mapM fun literal =>
      inContext (.literal (String.ofList literal))
        (DisjunctiveForm.read scope literal)
    .ok (ConjunctiveForm.disjoinAll (forms.map DisjunctiveForm.toConjunctive))

/-- Reads bodies of clauses, which are numbered from the given index. -/
def readClauses
    (scope : List Variable)
    (index : Nat) :
    List (List Char) → Except Failure (List (List Inequality))
  | [] => .ok []
  | body :: rest => do
    let form ← inContext (.clause index (String.ofList body))
      (readClause scope body)
    let others ← readClauses scope (index + 1) rest
    .ok (form ++ others)

/-- Reads a problem. -/
def read (text : String) : Except Failure Problem := do
  let outline ← outline text.toList
  let vars ← readDeclarations [] (Text.words outline.declarations)
  let clauses ← readClauses vars 0 outline.bodies
  .ok { vars, clauses }

end Problem
end OrderEncoding

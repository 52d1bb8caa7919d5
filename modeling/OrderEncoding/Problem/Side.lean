import OrderEncoding.Text.Blank
import OrderEncoding.Text.DecimalDigit
import OrderEncoding.LinearForm

/-!
# Sides of a comparison

A side such as `-x+2*y-3` is a sum of terms.  A term has an optional sign and is
a number, a variable, or a number and a variable with an optional `*` between
them.  Blanks have no meaning in a side.
-/

namespace OrderEncoding

/-- Whether a text is a name: an ASCII letter, then ASCII letters, digits and
underscores. -/
def isIdentifier : List Char → Bool
  | [] => false
  | first :: rest =>
    first.isAlpha && rest.all fun character =>
      character.isAlphanum || character == '_'

/-- A term of a side: a constant, or a monomial. -/
inductive SideTerm where
  | constant (value : Int)
  | monomial (term : Monomial)
deriving DecidableEq, Repr

/-- A side of a comparison: its monomials as they are written, and the sum of
its constants. -/
structure Side where
  monomials : List Monomial := []
  constant : Int := 0
deriving DecidableEq, Repr

namespace Side

/-- Whether a character begins a new term. -/
def isSign (character : Char) : Bool :=
  character == '+' || character == '-'

/-- The text cut before every sign. -/
def chunks : List Char → List (List Char)
  | [] => []
  | first :: rest =>
    match chunks rest with
    | [] => [[first]]
    | chunk :: others =>
      if chunk.head?.any isSign then [first] :: chunk :: others
      else (first :: chunk) :: others

/-- The parts of a written term. -/
structure Parts where
  negative : Bool
  /-- The digits of the number, none if it has no number. -/
  digits : List Char
  /-- The name of the variable, empty if it has none. -/
  name : List Char
deriving DecidableEq, Repr

/-- Takes the sign off a chunk. -/
def splitSign : List Char → Bool × List Char
  | '-' :: body => (true, body)
  | '+' :: body => (false, body)
  | body => (false, body)

/-- The parts of a chunk, if it is written as a term.  Digits of any script are
taken for a number here; its value is read later. -/
def parts? (chunk : List Char) : Option Parts :=
  let (negative, body) := splitSign chunk
  let digits := body.takeWhile Text.isDecimalDigit
  match body.dropWhile Text.isDecimalDigit with
  | [] =>
    if digits.isEmpty then none else some { negative, digits, name := [] }
  | '*' :: name =>
    if isIdentifier name then some { negative, digits, name } else none
  | name =>
    if isIdentifier name then some { negative, digits, name } else none

/-- The number of a term, one if none is written. -/
def Parts.size? (parts : Parts) : Option Int :=
  if parts.digits.isEmpty then some 1 else Numeral.readWord? parts.digits

/-- The term that a chunk denotes over the given variables. -/
def readTerm
    (scope : List Variable)
    (chunk : List Char) :
    Except Failure SideTerm :=
  let text := String.ofList chunk
  match parts? chunk with
  | none => .error (.expression text .malformedTerm)
  | some parts =>
    match parts.size? with
    | none => .error (.expression text .coefficientOutOfRange)
    | some size =>
      let value := if parts.negative then -size else size
      if parts.name.isEmpty then .ok (.constant value)
      else if value = 0 then .error (.expression text .zeroCoefficient)
      else
        let name := String.ofList parts.name
        match scope.find? (·.name = name) with
        | none => .error (.of (.unknownVariable name))
        | some var => .ok (.monomial { var, coefficient := value })

/-- Adds up the terms of the chunks from the left, starting with a constant.
Every sum of constants on the way has to be a machine integer. -/
def readTerms
    (scope : List Variable)
    (constant : Int) :
    List (List Char) → Except Failure Side
  | [] => .ok { constant }
  | chunk :: rest => do
    match ← readTerm scope chunk with
    | .constant value =>
      if Word.Fits (constant + value) then
        readTerms scope (constant + value) rest
      else
        .error (.expression (String.ofList chunk) .constantOutOfRange)
    | .monomial term =>
      let side ← readTerms scope constant rest
      .ok { side with monomials := term :: side.monomials }

/-- Reads a side over the given variables. -/
def read
    (scope : List Variable)
    (text : List Char) :
    Except Failure Side :=
  match chunks (Text.removeBlanks text) with
  | [] => .error (.expression "" .emptySide)
  | terms => readTerms scope 0 terms

/-- The value of a side when the variable `x` has the value `value x`. -/
def eval (value : String → Int) (side : Side) : Int :=
  total (side.monomials.map (Monomial.eval value)) + side.constant

end Side
end OrderEncoding

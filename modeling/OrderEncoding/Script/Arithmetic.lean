import OrderEncoding.Script.Number

/-!
# Arithmetic in scripts

Expressions quotient machine integers and variables.  Operators bind as in other
languages of this family; an assignment has a name on its left and is the value
it assigns.
-/

namespace OrderEncoding
namespace Script

/-- An operator between two operands. -/
inductive BinaryOperator where
  | times | quotient | rest | plus | minus | left | right
  | less | lessEqual | greater | greaterEqual | equal | unequal
  | bitAnd | bitXor | bitOr
deriving DecidableEq, Repr

/-- An operator before an operand. -/
inductive UnaryOperator where
  | negative
  | complement
  | opposite
deriving DecidableEq, Repr

/-- An expression. -/
inductive Expression where
  | literal (value : Int64)
  | parameter (name : Octets)
  | unary (operator : UnaryOperator) (operand : Expression)
  | binary (operator : BinaryOperator) (left right : Expression)
  | both (left right : Expression)
  | either (left right : Expression)
  | choice (test yes no : Expression)
  /-- The name gets the value, or what the operator makes of its own value and
  this one. -/
  | assign
      (name : Octets)
      (operator : Option BinaryOperator)
      (value : Expression)
deriving DecidableEq, Repr

namespace BinaryOperator

/-- The operators with their signs. -/
def signs : List (Octets × BinaryOperator) :=
  [("*", times), ("/", quotient), ("%", rest), ("+", plus), ("-", minus),
    ("<<", left), (">>", right), ("<", less), ("<=", lessEqual),
    (">", greater), (">=", greaterEqual), ("==", equal), ("!=", unequal),
    ("&", bitAnd), ("^", bitXor), ("|", bitOr)]

/-- How loosely an operator binds. -/
def looseness : BinaryOperator → Nat
  | times | quotient | rest => 0
  | plus | minus => 1
  | left | right => 2
  | less | lessEqual | greater | greaterEqual => 3
  | equal | unequal => 4
  | bitAnd => 5
  | bitXor => 6
  | bitOr => 7

/-- The number of a truth value. -/
def ofBool (value : Bool) : Int64 := if value then 1 else 0

/-- The value of an operator; `none` when the divisor is zero. -/
def compute? (operator : BinaryOperator) (a b : Int64) : Option Int64 :=
  match operator with
  | times => some (a * b)
  | quotient => if b = 0 then none else some (a / b)
  | rest => if b = 0 then none else some (a % b)
  | plus => some (a + b)
  | minus => some (a - b)
  | left => some (a <<< b)
  | right => some (a >>> b)
  | less => some (ofBool (a < b))
  | lessEqual => some (ofBool (a ≤ b))
  | greater => some (ofBool (b < a))
  | greaterEqual => some (ofBool (b ≤ a))
  | equal => some (ofBool (a = b))
  | unequal => some (ofBool (a ≠ b))
  | bitAnd => some (a &&& b)
  | bitXor => some (a ^^^ b)
  | bitOr => some (a ||| b)

end BinaryOperator

/-- The value of an operator before an operand. -/
def UnaryOperator.apply : UnaryOperator → Int64 → Int64
  | negative, a => -a
  | complement, a => ~~~a
  | opposite, a => BinaryOperator.ofBool (a = 0)

namespace Expression

/-- A token of an expression. -/
inductive Token where
  | number (value : Int64)
  | name (name : Octets)
  | sign (text : Octets)
deriving DecidableEq, Repr

/-- The signs of expressions, longer ones before their beginnings. -/
def signs : List (List Char) :=
  (["<<=", ">>=", "<<", ">>", "<=", ">=", "==", "!=", "&&", "||", "+=", "-=",
    "*=", "/=", "%=", "&=", "^=", "|=", "<", ">", "=", "+", "-", "*", "/", "%",
    "&", "^", "|", "!", "~", "?", ":", "(", ")"] : List Octets).map
    String.toList

/-- The token at the start of a text without blanks before it, and what
follows. -/
def token (first : Char) (rest : List Char) : Token × List Char :=
  let text := first :: rest
  if isNameStart first then
    let name := text.takeWhile isNamePart
    (.name (String.ofList name), text.drop name.length)
  else
    match if first.isDigit then LeadingNumber.read? true text else none with
    | some number =>
      (.number (Int64.ofInt (clampWord number.value)), number.rest)
    | none =>
      let sign := (signs.find? (·.isPrefixOf text)).getD [first]
      (.sign (String.ofList sign), text.drop sign.length)

/-- The tokens of a text.  The first argument bounds their number. -/
def tokens : Nat → List Char → List Token
  | 0, _ => []
  | count + 1, text =>
    match text.dropWhile isSpace with
    | [] => []
    | first :: rest =>
      let (token, left) := token first rest
      token :: tokens count left

/-- A step that takes tokens. -/
abbrev Parsing := StateT (List Token) (Except Octets)

/-- The next token, left in place. -/
def peek : Parsing (Option Token) := do return (← get).head?

/-- Drops the next token. -/
def skip : Parsing Unit := modify List.tail

/-- The operator of the next token, left in place. -/
def peekBinary : Parsing (Option BinaryOperator) := do
  match ← peek with
  | some (.sign text) =>
    return (BinaryOperator.signs.find? (·.1 = text)).map Prod.snd
  | _ => return none

/-- The operator of an assignment; an inner `none` stands for a plain one. -/
def assignment? (text : Octets) : Option (Option BinaryOperator) :=
  if text = "=" then some none
  else
    (BinaryOperator.signs.find? fun (sign, operator) =>
      operator.looseness ∉ [3, 4] && sign ++ "=" = text).map fun (_, operator) =>
        some operator

mutual

/-- Takes an assignment or what stands in the place of one. -/
def readAssignment : Nat → Parsing Expression
  | 0 => throw "expecting primary"
  | depth + 1 => do
    match ← get with
    | .name name :: .sign text :: rest =>
      match assignment? text with
      | some operator =>
        set rest
        return .assign name operator (← readAssignment depth)
      | none => readChoice depth
    | _ => readChoice depth

/-- Takes a choice. -/
def readChoice : Nat → Parsing Expression
  | 0 => throw "expecting primary"
  | depth + 1 => do
    let test ← readEither depth
    if (← peek) = some (.sign "?") then
      skip
      let yes ← readAssignment depth
      if (← peek) ≠ some (.sign ":") then throw "expecting ':'"
      skip
      return .choice test yes (← readChoice depth)
    else return test

/-- Takes a disjunction. -/
def readEither : Nat → Parsing Expression
  | 0 => throw "expecting primary"
  | depth + 1 => do
    let left ← readBoth depth
    if (← peek) = some (.sign "||") then
      skip
      return .either left (← readEither depth)
    else return left

/-- Takes a conjunction. -/
def readBoth : Nat → Parsing Expression
  | 0 => throw "expecting primary"
  | depth + 1 => do
    let left ← readBinary depth 8
    if (← peek) = some (.sign "&&") then
      skip
      return .both left (← readBoth depth)
    else return left

/-- Takes an operand and all operators after it that bind more tightly than the
given looseness. -/
def readBinary : Nat → Nat → Parsing Expression
  | 0, _ => throw "expecting primary"
  | depth + 1, looseness => do
    continueBinary depth looseness (← readUnary depth)

/-- Goes on after an operand. -/
def continueBinary : Nat → Nat → Expression → Parsing Expression
  | 0, _, left => return left
  | depth + 1, looseness, left => do
    match ← peekBinary with
    | some operator =>
      if operator.looseness < looseness then
        skip
        let right ← readBinary depth operator.looseness
        continueBinary depth looseness (.binary operator left right)
      else return left
    | none => return left

/-- Takes an operand. -/
def readUnary : Nat → Parsing Expression
  | 0 => throw "expecting primary"
  | depth + 1 => do
    match ← peek with
    | some (.number value) =>
      skip
      return .literal value
    | some (.name name) =>
      skip
      return .parameter name
    | some (.sign "+") =>
      skip
      readUnary depth
    | some (.sign "-") =>
      skip
      return .unary .negative (← readUnary depth)
    | some (.sign "~") =>
      skip
      return .unary .complement (← readUnary depth)
    | some (.sign "!") =>
      skip
      return .unary .opposite (← readUnary depth)
    | some (.sign "(") =>
      skip
      let inside ← readAssignment depth
      if (← peek) ≠ some (.sign ")") then throw "expecting ')'"
      skip
      return inside
    | _ => throw "expecting primary"

end

/-- The expression that a text denotes, or what is wrong with it. -/
def read (text : Octets) : Except Octets Expression := do
  let tokens := tokens (text.length + 1) text.toList
  let (expression, rest) ← (readAssignment (16 * tokens.length + 16)).run tokens
  if rest.isEmpty then return expression else throw "expecting EOF"

/-- The value of an expression, where `value` is that of a variable, `assign`
changes one, and `divisionFault` stands for a division by zero. -/
def eval [Monad m]
    (value : Octets → m Int64)
    (assign : Octets → Int64 → m Unit)
    (divisionFault : m Int64) :
    Expression → m Int64
  | .literal value => return value
  | .parameter name => value name
  | .unary operator operand => do
    return operator.apply (← operand.eval value assign divisionFault)
  | .binary operator left right => do
    let a ← left.eval value assign divisionFault
    let b ← right.eval value assign divisionFault
    match operator.compute? a b with
    | some result => return result
    | none => divisionFault
  | .both left right => do
    if (← left.eval value assign divisionFault) = 0 then return 0
    else
      return BinaryOperator.ofBool
        ((← right.eval value assign divisionFault) ≠ 0)
  | .either left right => do
    if (← left.eval value assign divisionFault) ≠ 0 then return 1
    else
      return BinaryOperator.ofBool
        ((← right.eval value assign divisionFault) ≠ 0)
  | .choice test yes no => do
    if (← test.eval value assign divisionFault) ≠ 0 then
      yes.eval value assign divisionFault
    else no.eval value assign divisionFault
  | .assign name operator operand => do
    let b ← operand.eval value assign divisionFault
    let result ←
      match operator with
      | none => pure b
      | some operator =>
        match operator.compute? (← value name) b with
        | some result => pure result
        | none => divisionFault
    assign name result
    return result

end Expression

end Script
end OrderEncoding

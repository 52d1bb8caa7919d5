import OrderEncoding.Script.Number

/-!
# Tests of scripts

The conditions that `test` decides: on texts, on numbers, and on the files that
paths lead to.
-/

namespace OrderEncoding
namespace Script
namespace Test

/-- What a path leads to. -/
inductive Target where
  | nothing
  | file (size : Nat)
  | directory
  | device
deriving DecidableEq, Repr

/-- Operators with one operand. -/
def unaryOperators : List Octets :=
  ["-c", "-d", "-e", "-f", "-n", "-r", "-s", "-w", "-x", "-z"]

/-- Operators between two operands. -/
def binaryOperators : List Octets :=
  ["=", "!=", "<", ">", "-eq", "-ne", "-ge", "-gt", "-le", "-lt"]

/-- The number that an operand denotes. -/
def number (text : Octets) : Except Octets Int :=
  match readNumber? false text with
  | some value => .ok value
  | none => .error ("Illegal number: " ++ text)

/-- Whether an operator holds of one operand. -/
def holds (target : Octets → Target) (operator operand : Octets) : Bool :=
  match operator, target operand with
  | "-z", _ => operand = ""
  | "-n", _ => operand ≠ ""
  | "-x", kind | "-d", kind => kind = .directory
  | "-c", kind => kind = .device
  | "-f", .file _ => true
  | "-f", _ => false
  | "-s", .file size => size ≠ 0
  | "-s", kind => kind = .directory
  | _, kind => kind ≠ .nothing

/-- Whether an operator holds between two operands. -/
def compare (left operator right : Octets) : Except Octets Bool := do
  match operator with
  | "=" => return left = right
  | "!=" => return left ≠ right
  | "<" => return left < right
  | ">" => return right < left
  | _ =>
    let left ← number left
    let right ← number right
    match operator with
    | "-eq" => return left = right
    | "-ne" => return left ≠ right
    | "-ge" => return right ≤ left
    | "-gt" => return right < left
    | "-le" => return left ≤ right
    | _ => return left < right

/-- What is said of arguments that are no condition. -/
def unexpected (argument : Octets) : Except Octets Bool :=
  .error (argument ++ ": unexpected operator")

/-- The value of a condition, by the number of its arguments.  Where a binary
operator stands between two arguments, it comes before a negation. -/
def value (target : Octets → Target) : List Octets → Except Octets Bool
  | [] => .ok false
  | [text] => .ok (text ≠ "")
  | [operator, operand] =>
    if operator = "!" then .ok (operand = "")
    else if operator ∈ unaryOperators then .ok (holds target operator operand)
    else if operand ∈ binaryOperators then
      .error (operand ++ ": argument expected")
    else unexpected operator
  | [left, operator, right] =>
    if operator ∈ binaryOperators then compare left operator right
    else if left = "!" then return !(← value target [operator, right])
    else unexpected (if left ∈ unaryOperators then operator else left)
  | first :: second :: rest =>
    if first = "!" then return !(← value target (second :: rest))
    else unexpected (if first ∈ unaryOperators then second else first)

end Test
end Script
end OrderEncoding

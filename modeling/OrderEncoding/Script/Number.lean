import OrderEncoding.Script.Octets
import OrderEncoding.Text.Numeral

/-!
# Numbers in scripts

Numbers are read from the start of a text: blanks, a sign and digits.  A number
that begins with `0x` has sixteen digits, one that begins with `0` eight, where
this is looked for; all others have ten.
-/

namespace OrderEncoding
namespace Script

/-- Whether an octet is a blank or ends a line. -/
def isSpace (octet : Char) : Bool :=
  octet = ' ' || ('\t' ≤ octet && octet ≤ '\r')

/-- The value of a digit, also beyond nine. -/
def digitValue? (octet : Char) : Option Nat :=
  if octet.isDigit then some (octet.toNat - '0'.toNat)
  else if octet.isLower then some (octet.toNat - 'a'.toNat + 10)
  else if octet.isUpper then some (octet.toNat - 'A'.toNat + 10)
  else none

/-- Whether an octet is a digit to a base. -/
def isDigitTo (base : Nat) (octet : Char) : Bool :=
  (digitValue? octet).any (· < base)

/-- The value of digits to a base. -/
def digitsValue (base : Nat) (digits : List Char) : Nat :=
  digits.foldl (fun value digit =>
    value * base + (digitValue? digit).getD 0) 0

/-- A number at the start of a text. -/
structure LeadingNumber where
  value : Int
  /-- What follows the number. -/
  rest : List Char
deriving DecidableEq, Repr

namespace LeadingNumber

/-- The base of digits, and the digits without what shows it. -/
def baseOf : List Char → Nat × List Char
  | '0' :: marker :: first :: rest =>
    if marker.toLower = 'x' && isDigitTo 16 first then (16, first :: rest)
    else (8, '0' :: marker :: first :: rest)
  | '0' :: rest => (8, '0' :: rest)
  | text => (10, text)

/-- The number at the start of a text, if one is there.  Its base is ten or is
looked for. -/
def read? (anyBase : Bool) (text : List Char) : Option LeadingNumber :=
  let unsigned (text : List Char) : Option (Nat × List Char) :=
    let (base, digits) := if anyBase then baseOf text else (10, text)
    let taken := digits.takeWhile (isDigitTo base)
    if taken.isEmpty then none
    else some (digitsValue base taken, digits.drop taken.length)
  match text.dropWhile isSpace with
  | '-' :: rest => (unsigned rest).map fun (size, rest) =>
      { value := -size, rest }
  | '+' :: rest => (unsigned rest).map fun (size, rest) =>
      { value := size, rest }
  | rest => (unsigned rest).map fun (size, rest) => { value := size, rest }

end LeadingNumber

/-- The machine integer next to a number. -/
def clampWord (value : Int) : Int :=
  max Word.least (min Word.greatest value)

/-- The machine integer that a whole text denotes, blanks around it included. -/
def readNumber? (anyBase : Bool) (text : Octets) : Option Int :=
  match LeadingNumber.read? anyBase text.toList with
  | some number =>
    if number.rest.all isSpace then OrderEncoding.Word.check? number.value
    else none
  | none => if anyBase && text.toList.all isSpace then some 0 else none

/-- The count that a whole text denotes. -/
def readCount? (text : Octets) : Option Nat :=
  match readNumber? false text with
  | some value =>
    if 0 ≤ value && value ≤ greatestNumber then some value.toNat else none
  | none => none

end Script
end OrderEncoding

import OrderEncoding.Word

/-!
# Decimal numerals

Numbers are written in decimal, with a leading `-` for a negative one.  They
are read from an optional sign and at least one ASCII digit, leading zeros
included, and only when the value is a machine integer.
-/

namespace OrderEncoding
namespace Numeral

/-- The decimal digits of a natural number. -/
def ofNat (value : Nat) : String :=
  String.ofList (Nat.toDigits 10 value)

/-- The decimal numeral of an integer. -/
def ofInt (value : Int) : String :=
  if value < 0 then "-" ++ ofNat value.natAbs else ofNat value.natAbs

/-- The value of a nonempty string of ASCII digits. -/
def readDigits? (text : List Char) : Option Nat :=
  if text ≠ [] ∧ text.all Char.isDigit then
    some (Nat.ofDigitChars 10 text 0)
  else
    none

/-- The machine integer that an optional sign and digits denote. -/
def readWord? : List Char → Option Int
  | '-' :: digits => (readDigits? digits).bind fun size => Word.check? (-size)
  | '+' :: digits => (readDigits? digits).bind fun size => Word.check? size
  | digits => (readDigits? digits).bind fun size => Word.check? size

/-- The unsigned machine integer that an optional `+` and digits denote. -/
def readCount? (text : List Char) : Option Nat :=
  let digits :=
    match text with
    | '+' :: rest => rest
    | _ => text
  (readDigits? digits).filter (· ≤ Word.greatestCount)

@[simp] theorem readDigits?_toDigits
    (value : Nat) :
    readDigits? (Nat.toDigits 10 value) = some value := by
  have allDigits : (Nat.toDigits 10 value).all Char.isDigit = true := by
    rw [List.all_eq_true]
    intro character member
    exact Nat.isDigit_of_mem_toDigits (by decide) (by decide) member
  simp [readDigits?, allDigits, Nat.toDigits_ne_nil,
    Nat.ofDigitChars_ten_toDigits]

end Numeral
end OrderEncoding

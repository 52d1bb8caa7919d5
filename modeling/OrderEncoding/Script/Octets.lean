import OrderEncoding.Files

/-!
# Octets

Scripts and what they print are sequences of octets.  A text of octets is a
string in which every character stands for one of them, so that counting and
cutting its characters counts and cuts octets.
-/

namespace OrderEncoding
namespace Script

/-- A string whose characters are octets. -/
abbrev Octets := String

namespace Octets

/-- The octets of bytes. -/
def ofBytes (bytes : List UInt8) : Octets :=
  String.ofList (bytes.map fun byte => Char.ofNat byte.toNat)

/-- The bytes of octets. -/
def bytes (octets : Octets) : List UInt8 :=
  octets.toList.map fun octet => UInt8.ofNat octet.toNat

/-- The octets that encode a text. -/
def ofText (text : String) : Octets :=
  ofBytes (Text.Utf8.encode text)

/-- The text that octets encode; malformed ones are replaced. -/
def text (octets : Octets) : String :=
  Text.Utf8.decodeLossy octets.bytes

/-- The octets of a content. -/
def ofContent (content : Content) : Octets :=
  ofBytes content.bytes

/-- The content that consists of octets. -/
def content (octets : Octets) : Content :=
  .ofBytes octets.bytes

end Octets

/-- The last of the numbers that the shell counts with. -/
def greatestNumber : Nat := 2147483647

/-- Whether a character begins a name. -/
def isNameStart (octet : Char) : Bool :=
  octet.isAlpha || octet = '_'

/-- Whether a character goes on with a name. -/
def isNamePart (octet : Char) : Bool :=
  isNameStart octet || octet.isDigit

/-- Whether a text is a name, as variables and functions have them. -/
def isName (text : Octets) : Bool :=
  match text.toList with
  | [] => false
  | first :: rest => isNameStart first && rest.all isNamePart

end Script
end OrderEncoding

/-!
# UTF-8

Decoding of bytes into characters.  Every maximal piece of bytes that begins no
character, or begins one and does not go on with it, is malformed.
-/

namespace OrderEncoding
namespace Text
namespace Utf8

/-- A character that has begun: the code point so far, how many bytes are due,
and the range of the next one. -/
structure Pending where
  code : Nat
  due : Nat
  low : Nat := 0x80
  high : Nat := 0xBF
deriving DecidableEq, Repr

/-- What a byte between characters means. -/
inductive Start where
  | character (character : Char)
  | pending (pending : Pending)
  | malformed
deriving DecidableEq, Repr

/-- The meaning of a byte between characters.  The ranges of second bytes rule
out overlong forms, surrogates and code points that are too large. -/
def start (byte : Nat) : Start :=
  if byte < 0x80 then .character (Char.ofNat byte)
  else if byte < 0xC2 then .malformed
  else if byte < 0xE0 then .pending { code := byte - 0xC0, due := 1 }
  else if byte = 0xE0 then .pending { code := 0, due := 2, low := 0xA0 }
  else if byte = 0xED then .pending { code := 0xD, due := 2, high := 0x9F }
  else if byte < 0xF0 then .pending { code := byte - 0xE0, due := 2 }
  else if byte = 0xF0 then .pending { code := 0, due := 3, low := 0x90 }
  else if byte < 0xF4 then .pending { code := byte - 0xF0, due := 3 }
  else if byte = 0xF4 then .pending { code := 4, due := 3, high := 0x8F }
  else .malformed

/-- The characters of bytes, with `none` for every malformed piece. -/
def pieces : Option Pending → List UInt8 → List (Option Char)
  | none, [] => []
  | some _, [] => [none]
  | some pending, byte :: rest =>
    if pending.low ≤ byte.toNat ∧ byte.toNat ≤ pending.high then
      let code := pending.code * 64 + (byte.toNat - 0x80)
      if pending.due ≤ 1 then some (Char.ofNat code) :: pieces none rest
      else pieces (some { code, due := pending.due - 1 }) rest
    else
      none ::
        match start byte.toNat with
        | .character character => some character :: pieces none rest
        | .pending next => pieces (some next) rest
        | .malformed => none :: pieces none rest
  | none, byte :: rest =>
    match start byte.toNat with
    | .character character => some character :: pieces none rest
    | .pending next => pieces (some next) rest
    | .malformed => none :: pieces none rest

/-- The text that the bytes encode, if no piece of them is malformed. -/
def decode? (bytes : List UInt8) : Option String :=
  ((pieces none bytes).mapM id).map String.ofList

/-- The text that the bytes encode, with a replacement character for every
malformed piece. -/
def decodeLossy (bytes : List UInt8) : String :=
  String.ofList ((pieces none bytes).map (·.getD '\uFFFD'))

/-- The bytes of a text. -/
def encode (text : String) : List UInt8 :=
  text.toUTF8.toList

end Utf8
end Text
end OrderEncoding

import OrderEncoding.Script.Octets

/-!
# Patterns

A pattern matches texts: `*` any run, `?` any octet, and a set in brackets each
octet of its ranges.  Quoted octets match themselves.
-/

namespace OrderEncoding
namespace Script

/-- An octet of a field, and whether it was quoted. -/
structure Letter where
  octet : Char
  quoted : Bool
deriving DecidableEq, Repr

namespace Letter

/-- Whether a letter is the given octet with its meaning. -/
def means (letter : Letter) (octet : Char) : Bool :=
  letter.octet = octet && !letter.quoted

/-- The text of letters. -/
def text (letters : List Letter) : Octets :=
  String.ofList (letters.map Letter.octet)

/-- The letters of a text, all quoted or none. -/
def ofText (text : Octets) (quoted : Bool) : List Letter :=
  text.toList.map fun octet => { octet, quoted }

end Letter

/-- The octets from one to another one. -/
structure OctetRange where
  first : Char
  last : Char
deriving DecidableEq, Repr

/-- Whether an octet lies in a range. -/
def OctetRange.contains (range : OctetRange) (octet : Char) : Bool :=
  range.first ≤ octet && octet ≤ range.last

/-- A piece of a pattern. -/
inductive PatternPiece where
  | octet (octet : Char)
  | any
  | run
  | set (negated : Bool) (ranges : List OctetRange)
deriving DecidableEq, Repr

/-- A pattern. -/
abbrev Pattern := List PatternPiece

namespace Pattern

/-- The ranges of a set and what follows its closing bracket; `none` if there is
none.  A bracket at the start is a member.  The first argument bounds the number
of ranges. -/
def readSet? :
    Nat → Bool → List Letter → Option (List OctetRange × List Letter)
  | 0, _, _ => none
  | _, _, [] => none
  | count + 1, atStart, first :: rest =>
    if first.means ']' && !atStart then some ([], rest)
    else
      let (last, after) :=
        match rest with
        | dash :: last :: after =>
          if dash.means '-' && !last.means ']' then (last, after)
          else (first, rest)
        | _ => (first, rest)
      (readSet? count false after).map fun (ranges, left) =>
        ({ first := first.octet, last := last.octet } :: ranges, left)

/-- The pattern of letters.  A bracket that no other closes is an octet.  The
first argument bounds the number of pieces. -/
def ofLetters : Nat → List Letter → Pattern
  | 0, _ => []
  | _, [] => []
  | count + 1, letter :: rest =>
    if letter.means '*' then .run :: ofLetters count rest
    else if letter.means '?' then .any :: ofLetters count rest
    else if letter.means '\\' then
      match rest with
      | [] => [.octet '\\']
      | next :: after => .octet next.octet :: ofLetters count after
    else if letter.means '[' then
      let negated := rest.head?.any (·.means '!')
      let inside := if negated then rest.tail else rest
      match readSet? (inside.length + 1) true inside with
      | some (ranges, after) =>
        .set negated ranges :: ofLetters count after
      | none => .octet '[' :: ofLetters count rest
    else .octet letter.octet :: ofLetters count rest

/-- The pattern that letters make up. -/
def read (letters : List Letter) : Pattern :=
  ofLetters (letters.length + 1) letters

/-- Whether a piece matches one octet. -/
def PatternPiece.matchesOctet (piece : PatternPiece) (octet : Char) : Bool :=
  match piece with
  | .octet own => own = octet
  | .any => true
  | .run => false
  | .set negated ranges =>
    (ranges.any (·.contains octet)) != negated

/-- Whether a pattern matches a whole text. -/
def isMatch : Pattern → List Char → Bool
  | [], text => text.isEmpty
  | .run :: rest, text =>
    (List.range (text.length + 1)).any fun count =>
      isMatch rest (text.drop count)
  | piece :: rest, octet :: text =>
    PatternPiece.matchesOctet piece octet && isMatch rest text
  | _ :: _, [] => false

/-- A text without what a pattern matches at one of its ends. -/
def trim (pattern : Pattern) (atEnd longest : Bool) (text : Octets) : Octets :=
  let octets := text.toList
  let counts := List.range (octets.length + 1)
  let part (count : Nat) : List Char × List Char :=
    if atEnd then
      let kept := octets.length - count
      (octets.drop kept, octets.take kept)
    else (octets.take count, octets.drop count)
  let counts := if longest then counts.reverse else counts
  match counts.find? fun count => pattern.isMatch (part count).1 with
  | some count => String.ofList (part count).2
  | none => text

end Pattern

end Script
end OrderEncoding

import OrderEncoding.Script.Number

/-!
# Printing in scripts

What `echo` and `printf` print.  An escape stands for a control octet, for an
octet given by digits, or for the end of all that is printed.  A format is used
again as long as arguments are left.
-/

namespace OrderEncoding
namespace Script

/-- Octets that may end all that is printed. -/
structure Printed where
  octets : List Char
  cut : Bool := false
deriving DecidableEq, Repr

/-- Whether an octet is a digit to the base eight. -/
def isOctalDigit (octet : Char) : Bool :=
  '0' ≤ octet && octet ≤ '7'

/-- The octet of digits to the base eight. -/
def octalOctet (digits : List Char) : Char :=
  Char.ofNat (digitsValue 8 digits % 256)

/-- The octet of a letter after a backslash. -/
def escapeOctet? : Char → Option Char
  | 'a' => some '\x07'
  | 'b' => some '\x08'
  | 'e' => some '\x1b'
  | 'f' => some '\x0c'
  | 'n' => some '\n'
  | 'r' => some '\r'
  | 't' => some '\t'
  | 'v' => some '\x0b'
  | '\\' => some '\\'
  | _ => none

/-- The octet of an escape, and how many octets after the backslash it takes. -/
def escape (text : List Char) : Char × Nat :=
  let digits := (text.takeWhile isOctalDigit).take 3
  if !digits.isEmpty then (octalOctet digits, digits.length)
  else
    match text.head?.bind escapeOctet? with
    | some octet => (octet, 1)
    | none => ('\\', 0)

/-- The octets of a text with escapes.  Digits may have a zero more before them,
and `\\c` ends all.  The first argument counts octets that are passed over. -/
def unescape : Nat → List Char → Printed
  | _, [] => { octets := [] }
  | skipped + 1, _ :: rest => unescape skipped rest
  | 0, '\\' :: rest =>
    if rest.head? = some 'c' then { octets := [], cut := true }
    else
      let zero := rest.head? = some '0' && rest.tail.head?.any isOctalDigit
      let (octet, taken) := escape (if zero then rest.tail else rest)
      let after := unescape (if zero then taken + 1 else taken) rest
      { after with octets := octet :: after.octets }
  | 0, octet :: rest =>
    let after := unescape 0 rest
    { after with octets := octet :: after.octets }

/-- What `echo` prints. -/
def echoText (arguments : List Octets) : Octets :=
  let (arguments, ending) :=
    match arguments with
    | "-n" :: rest => (rest, [])
    | _ => (arguments, ['\n'])
  let printed := unescape 0 (" ".intercalate arguments).toList
  String.ofList (if printed.cut then printed.octets
    else printed.octets ++ ending)

/-- A width or a precision of a directive. -/
inductive Measure where
  | none
  | fixed (value : Nat)
  /-- The next argument says it. -/
  | argument
deriving DecidableEq, Repr

/-- A place of a format that an argument fills. -/
structure Directive where
  flags : List Char
  width : Measure
  precision : Measure
  kind : Char
  /-- How the directive is written. -/
  text : Octets
deriving DecidableEq, Repr

/-- A piece of a format. -/
inductive FormatPiece where
  | plain (octet : Char)
  | directive (directive : Directive)
  /-- The format ends in the middle of a directive. -/
  | broken
deriving DecidableEq, Repr

namespace FormatPiece

/-- Flags that a directive may have. -/
def flags : List Char := ['#', '-', '+', ' ', '0']

/-- The number that digits denote, a `*`, or nothing. -/
def readMeasure : List Char → Measure × List Char
  | '*' :: rest => (.argument, rest)
  | text =>
    let digits := text.takeWhile fun octet => octet.isDigit || octet = '*'
    if digits.isEmpty then (.none, text)
    else (.fixed (digitsValue 10 digits), text.drop digits.length)

/-- The directive after a percent sign, and what follows. -/
def readDirective (text : List Char) : FormatPiece × List Char :=
  let flags := text.takeWhile (· ∈ flags)
  let (width, rest) := readMeasure (text.drop flags.length)
  let (precision, rest) :=
    match rest with
    | '.' :: rest =>
      match readMeasure rest with
      | (.none, rest) => (.fixed 0, rest)
      | read => read
    | _ => (.none, rest)
  match rest with
  | [] => (.broken, [])
  | kind :: rest =>
    let written := '%' :: text.take (text.length - rest.length)
    (.directive
      { flags, width, precision, kind, text := String.ofList written }, rest)

/-- The pieces of a format.  The first argument bounds their number. -/
def read : Nat → List Char → List FormatPiece
  | 0, _ => []
  | _, [] => []
  | count + 1, '\\' :: rest =>
    let (octet, taken) := escape rest
    .plain octet :: read count (rest.drop taken)
  | count + 1, '%' :: '%' :: rest => .plain '%' :: read count rest
  | count + 1, '%' :: rest =>
    let (piece, rest) := readDirective rest
    piece :: read count rest
  | count + 1, octet :: rest => .plain octet :: read count rest

end FormatPiece

/-- What is left of printing a format. -/
structure Formatting where
  arguments : List Octets
  /-- What was printed, the last octet first. -/
  reversed : List Char := []
  /-- What is said of arguments that are no numbers, the last one first. -/
  complaints : List Octets := []
  /-- What is wrong with the format. -/
  fault : Option Octets := none
  cut : Bool := false

namespace Formatting

/-- Whether nothing more is printed. -/
def stopped (state : Formatting) : Bool :=
  state.cut || state.fault.isSome

/-- Printing with more octets. -/
def print (state : Formatting) (octets : List Char) : Formatting :=
  { state with reversed := octets.reverse ++ state.reversed }

/-- Printing with one more complaint. -/
def complain (state : Formatting) (argument reason : Octets) : Formatting :=
  { state with
    complaints := (argument ++ ": " ++ reason) :: state.complaints }

/-- Takes the next argument. -/
def next (state : Formatting) : Option Octets × Formatting :=
  (state.arguments.head?,
    { state with arguments := state.arguments.tail })

/-- The complaint about what is left of an argument after its number. -/
def checkRest (state : Formatting) (argument : Octets) (rest : List Char)
    (inRange : Bool) : Formatting :=
  if !rest.isEmpty then
    if rest.length = argument.length then
      state.complain argument "expected numeric value"
    else state.complain argument "not completely converted"
  else if !inRange then
    state.complain argument "Numerical result out of range"
  else state

/-- Whether an argument stands for the code of its second octet. -/
def isQuotedCode (argument : Octets) : Bool :=
  match argument.toList.head? with
  | some octet => octet = '"' || octet = '\''
  | none => false

/-- The code of the second octet of an argument. -/
def quotedCode (argument : Octets) : Nat :=
  ((argument.toList.tail.head?).map Char.toNat).getD 0

/-- Takes an integer from the next argument. -/
def nextInteger (state : Formatting) (signed : Bool) : Int × Formatting :=
  match state.next with
  | (none, state) => (0, state)
  | (some argument, state) =>
    if isQuotedCode argument then (quotedCode argument, state)
    else
      match LeadingNumber.read? true argument.toList with
      | none => (0, state.checkRest argument argument.toList true)
      | some number =>
        let greatest : Int :=
          if signed then OrderEncoding.Word.greatest
          else OrderEncoding.Word.greatestCount
        let least : Int :=
          if signed then OrderEncoding.Word.least
          else -OrderEncoding.Word.greatestCount
        let inRange := least ≤ number.value && number.value ≤ greatest
        let value :=
          if inRange then number.value
          else if signed && number.value < 0 then least
          else greatest
        (value, state.checkRest argument number.rest inRange)

/-- The value of a width or a precision. -/
def measure (state : Formatting) : Measure → Option Int × Formatting
  | .none => (none, state)
  | .fixed value => (some value, state)
  | .argument =>
    let (value, state) := state.nextInteger true
    (some value, state)

end Formatting

/-- How an argument is laid out. -/
structure Layout where
  flags : List Char
  width : Nat
  leftward : Bool
  precision : Option Nat

namespace Layout

/-- Whether a flag is set. -/
def has (layout : Layout) (flag : Char) : Bool := flag ∈ layout.flags

/-- Octets among blanks. -/
def pad (layout : Layout) (octets : List Char) : List Char :=
  let blanks := List.replicate (layout.width - octets.length) ' '
  if layout.leftward then octets ++ blanks else blanks ++ octets

/-- A text, cut to the precision, among blanks. -/
def text (layout : Layout) (octets : List Char) : List Char :=
  layout.pad (match layout.precision with
    | some length => octets.take length
    | none => octets)

/-- Digits after a sign, among blanks, or after zeros unless a precision says how
many digits there are. -/
def number (layout : Layout) (sign digits : Octets) : List Char :=
  let filled :=
    if layout.precision.isNone && layout.has '0' && !layout.leftward then
      let missing := layout.width - (sign.length + digits.length)
      String.ofList (List.replicate missing '0') ++ digits
    else digits
  layout.pad (sign ++ filled).toList

/-- The sign before a number. -/
def sign (layout : Layout) (negative : Bool) : Octets :=
  if negative then "-"
  else if layout.has '+' then "+"
  else if layout.has ' ' then " "
  else ""

/-- Digits with zeros before them up to the precision. -/
def digits (layout : Layout) (digits : List Char) : List Char :=
  match layout.precision with
  | none => digits
  | some 0 => if digits = ['0'] then [] else digits
  | some length => List.replicate (length - digits.length) '0' ++ digits

/-- A signed integer. -/
def signedInteger (layout : Layout) (value : Int) : List Char :=
  let digits := layout.digits (Nat.toDigits 10 value.natAbs)
  layout.number (layout.sign (value < 0)) (String.ofList digits)

/-- An unsigned integer to a base. -/
def unsignedInteger (layout : Layout) (kind : Char) (value : Int) :
    List Char :=
  let size := (value % (OrderEncoding.Word.greatestCount + 1 : Int)).toNat
  let base := if kind = 'o' then 8 else if kind = 'u' then 10 else 16
  let digits := layout.digits (Nat.toDigits base size)
  let digits :=
    if kind = 'o' && layout.has '#' && digits.head? ≠ some '0' then
      '0' :: digits
    else digits
  let sign := if base = 16 && layout.has '#' && size ≠ 0 then "0x" else ""
  let written := layout.number sign (String.ofList digits)
  if kind = 'X' then written.map Char.toUpper else written

end Layout

namespace Formatting

/-- Fills one place of a format. -/
def fill (state : Formatting) (directive : Directive) : Formatting :=
  let (width, state) := state.measure directive.width
  let (precision, state) := state.measure directive.precision
  let width := width.getD 0
  let layout : Layout :=
    { flags := directive.flags
      width := width.natAbs
      leftward := '-' ∈ directive.flags || width < 0
      precision := precision.bind fun value =>
        if value < 0 then none else some value.toNat }
  let kind := directive.kind
  if kind = 'b' then
    let (argument, state) := state.next
    let printed := unescape 0 (argument.getD "").toList
    { state.print (layout.text printed.octets) with cut := printed.cut }
  else if kind = 's' then
    let (argument, state) := state.next
    state.print (layout.text (argument.getD "").toList)
  else if kind = 'c' then
    let (argument, state) := state.next
    state.print (layout.pad [(argument.getD "").toList.headD '\x00'])
  else if kind ∈ ['d', 'i'] then
    let (value, state) := state.nextInteger true
    state.print (layout.signedInteger value)
  else if kind ∈ ['o', 'u', 'x', 'X'] then
    let (value, state) := state.nextInteger false
    state.print (layout.unsignedInteger kind value)
  else
    { state with fault := some (directive.text ++ ": invalid directive") }

/-- Prints one piece of a format. -/
def step (state : Formatting) (piece : FormatPiece) : Formatting :=
  if state.stopped then state
  else
    match piece with
    | .plain octet => state.print [octet]
    | .directive directive => state.fill directive
    | .broken => { state with fault := some "missing format character" }

/-- Prints a format, and again as long as that takes up arguments.  The first
argument bounds the number of times. -/
def rounds (pieces : List FormatPiece) : Nat → Formatting → Formatting
  | 0, state => state
  | count + 1, state =>
    let after := pieces.foldl step state
    if after.stopped || after.arguments.isEmpty ||
        after.arguments.length = state.arguments.length then after
    else rounds pieces count after

/-- Prints a format with arguments. -/
def run (format : Octets) (arguments : List Octets) : Formatting :=
  let pieces := FormatPiece.read (format.length + 1) format.toList
  rounds pieces (arguments.length + 1) { arguments }

/-- What was printed. -/
def output (state : Formatting) : Octets :=
  String.ofList state.reversed.reverse

end Formatting

end Script
end OrderEncoding

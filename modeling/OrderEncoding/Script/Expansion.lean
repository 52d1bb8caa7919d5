import OrderEncoding.Script.Arithmetic
import OrderEncoding.Script.Pattern
import OrderEncoding.Script.State

/-!
# Expansion of words

A word is expanded to glyphs: octets of the script, octets that came from
parameters and commands, and signs that show where quotes and arguments were.
Glyphs make up fields, which are cut at separators.
-/

namespace OrderEncoding
namespace Script

/-- A unit of an expanded word. -/
inductive Glyph where
  /-- An octet that separates nothing. -/
  | fixed (letter : Letter)
  /-- An octet that may separate fields. -/
  | loose (octet : Char)
  /-- Something was quoted here. -/
  | mark
  /-- One argument ends and another one begins. -/
  | border
  /-- Likewise, but empty arguments are passed over. -/
  | gap
deriving DecidableEq, Repr

namespace Glyph

/-- The glyphs of a text that was found for something in a word. -/
def ofText (text : Octets) (quoted : Bool) : List Glyph :=
  if quoted then (Letter.ofText text true).map .fixed
  else text.toList.map .loose

/-- The letters of glyphs that make up a single text; arguments are joined by a
separator. -/
def letters (separator : List Letter) (glyphs : List Glyph) : List Letter :=
  glyphs.flatMap fun
    | .fixed letter => [letter]
    | .loose octet => [{ octet, quoted := false }]
    | .mark => []
    | .border | .gap => separator

/-- What was passed over last. -/
inductive Passed where
  | octet
  | blank
  | separator
deriving DecidableEq, Repr

/-- Fields that are being cut: the complete ones, the last one first, and the
letters of the present one, likewise. -/
structure Cutting where
  done : List (List Letter) := []
  present : Option (List Letter) := none
  passed : Passed := .octet

namespace Cutting

/-- Ends the present field, even an empty one. -/
def finish (cutting : Cutting) (passed : Passed) : Cutting :=
  { done := (cutting.present.getD []).reverse :: cutting.done
    passed }

/-- Puts a letter at the end of the present field. -/
def add (cutting : Cutting) (letter : Letter) : Cutting :=
  { cutting with
    present := some (letter :: cutting.present.getD [])
    passed := .octet }

/-- Takes an octet that may separate fields.  Blanks around a separator belong
to it. -/
def addLoose (separators : List Char) (cutting : Cutting) (octet : Char) :
    Cutting :=
  if octet ∉ separators then cutting.add { octet, quoted := false }
  else if octet ∈ [' ', '\t', '\n'] then
    if cutting.present.isNone then cutting else cutting.finish .blank
  else if cutting.passed = .blank then { cutting with passed := .separator }
  else cutting.finish .separator

/-- Takes a glyph. -/
def step (separators : List Char) (cutting : Cutting) : Glyph → Cutting
  | .fixed letter => cutting.add letter
  | .loose octet => cutting.addLoose separators octet
  | .mark =>
    { cutting with
      present := some (cutting.present.getD [])
      passed := .octet }
  | .border => cutting.finish .octet
  | .gap =>
    if cutting.present.isSome then cutting.finish .octet
    else { cutting with passed := .octet }

/-- All fields. -/
def fields (cutting : Cutting) : List (List Letter) :=
  (cutting.present.map List.reverse).toList ++ cutting.done

end Cutting

/-- The fields of glyphs. -/
def fields (separators : Octets) (glyphs : List Glyph) : List (List Letter) :=
  (glyphs.foldl (Cutting.step separators.toList) {}).fields.reverse

end Glyph

/-- Where a word stands. -/
structure Mode where
  /-- Whether the word makes up fields. -/
  toFields : Bool
  /-- Whether the word stands in for a parameter. -/
  within : Bool := false

/-- What running a script needs of itself: to run a command, in this shell or in
one inside it, and to expand parts of words. -/
structure Engine where
  run : Command → Act Unit
  runInside : Command → Act Unit
  expand : Mode → List Part → Act (List Glyph)

/-- The value of a parameter. -/
inductive ParameterValue where
  | text (text : Octets)
  /-- All arguments; the flag tells whether quotes keep them apart. -/
  | arguments (apart : Bool) (texts : List Octets)

namespace Shell

/-- The value of a parameter, unless it is not set. -/
def parameter? (shell : Shell) (name : Octets) : Option ParameterValue :=
  let text (text : Octets) : Option ParameterValue := some (.text text)
  match name with
  | "@" =>
    if shell.arguments.isEmpty then none
    else some (.arguments true shell.arguments)
  | "*" =>
    if shell.arguments.isEmpty then none
    else some (.arguments false shell.arguments)
  | "#" => text (Numeral.ofNat shell.arguments.length)
  | "?" => text (Numeral.ofNat shell.status)
  | "$" => text (Numeral.ofNat ownProcess)
  | _ =>
    if name.toList.all Char.isDigit then
      match digitsValue 10 name.toList with
      | 0 => text shell.name
      | position + 1 => (shell.arguments[position]?).map .text
    else (shell.value? name).map .text

/-- The first separator of fields. -/
def joiner (shell : Shell) : Octets :=
  String.ofList (shell.separators.toList.take 1)

/-- A parameter as one text. -/
def joined (shell : Shell) : ParameterValue → Octets
  | .text text => text
  | .arguments _ texts => shell.joiner.intercalate texts

end Shell

namespace Expansion

/-- The glyphs of the value of a parameter. -/
def valueGlyphs (shell : Shell) (mode : Mode) (quoted : Bool)
    (value : ParameterValue) : List Glyph :=
  match value with
  | .text text => Glyph.ofText text quoted
  | .arguments apart texts =>
    if !mode.toFields || (quoted && !apart) then
      Glyph.ofText (shell.joined value) quoted
    else if quoted then
      [.border].intercalate (texts.map fun text =>
        .mark :: Glyph.ofText text true)
    else [.gap].intercalate (texts.map fun text => Glyph.ofText text false)

/-- The letters of a word that is a single text. -/
def letters (engine : Engine) (mode : Mode) (word : Word) :
    Act (List Letter) := do
  let glyphs ← engine.expand { mode with toFields := false } word
  return Glyph.letters (Letter.ofText (← get).joiner true) glyphs

/-- A word as a single text. -/
def text (engine : Engine) (word : Word) : Act Octets := do
  return Letter.text (← letters engine { toFields := false } word)

/-- Ends because of a parameter that is not set. -/
def unset (name : Octets) : Act α :=
  Act.fail (name ++ ": parameter not set")

/-- The value of a parameter, where one that is not set may be a fault. -/
def checkedValue (name : Octets) : Act (Option ParameterValue) := do
  let shell ← get
  let value := shell.parameter? name
  if value.isNone && shell.hasOption 'u' && name ∉ ["@", "*"] then unset name
  return value

/-- The glyphs of a parameter. -/
def parameterGlyphs (engine : Engine) (mode : Mode) (name : Octets)
    (usage : Usage) (quoted : Bool) : Act (List Glyph) := do
  let shell ← get
  let value := shell.parameter? name
  let glyphs (value : ParameterValue) : Act (List Glyph) := do
    return valueGlyphs (← get) mode quoted value
  let usable (orEmpty : Bool) : Bool :=
    value.any fun value => !orEmpty || shell.joined value ≠ ""
  let expandWord (word : Word) : Act (List Glyph) :=
    engine.expand { mode with within := true } word
  match usage with
  | .malformed => Act.fail "Bad substitution"
  | .value =>
    match ← checkedValue name with
    | some value => glyphs value
    | none => return []
  | .length =>
    let value ← checkedValue name
    let length := ((value.map shell.joined).getD "").length
    return Glyph.ofText (Numeral.ofNat length) quoted
  | .instead orEmpty word =>
    match value with
    | some value =>
      if usable orEmpty then glyphs value else expandWord word
    | none => expandWord word
  | .assigned orEmpty word =>
    match usable orEmpty, value with
    | true, some value => glyphs value
    | _, _ =>
      let text := Letter.text
        (← letters engine { toFields := false, within := true } word)
      if !isName name then Act.fail (name ++ ": bad variable name")
      Act.assign name text
      glyphs (.text text)
  | .demanded orEmpty word =>
    match usable orEmpty, value with
    | true, some value => glyphs value
    | _, _ =>
      let reason := Letter.text
        (← letters engine { toFields := false, within := true } word)
      let ordinary := "parameter not set" ++ if orEmpty then " or null" else ""
      Act.fail (name ++ ": " ++ if word.isEmpty then ordinary else reason)
  | .given orEmpty word =>
    if usable orEmpty then expandWord word else return []
  | .trimmed atEnd longest word =>
    let value ← checkedValue name
    let pattern ← letters engine { toFields := false } word
    let text := (value.map shell.joined).getD ""
    return Glyph.ofText
      (Pattern.trim (Pattern.read pattern) atEnd longest text) quoted

/-- A text without line feeds at its end, and without null octets. -/
def trimOutput (output : Octets) : Octets :=
  let octets := output.toList.filter (· ≠ '\x00')
  String.ofList (octets.reverse.dropWhile (· = '\n')).reverse

/-- The glyphs of what a command prints. -/
def outputGlyphs (engine : Engine) (body : Command) (quoted : Bool) :
    Act (List Glyph) := do
  let before := (← get).status
  let output ← Act.captured (engine.runInside body)
  modify fun shell =>
    { shell with outputStatus := some shell.status, status := before }
  return Glyph.ofText (trimOutput output) quoted

/-- The number that a variable holds. -/
def variableNumber (name : Octets) : Act Int64 := do
  let text := (← get).value name
  return Int64.ofInt (← Act.demandNumber (readNumber? true text) text)

/-- The glyphs of the value of an arithmetic expression. -/
def arithmeticGlyphs (engine : Engine) (expression : Word) (quoted : Bool) :
    Act (List Glyph) := do
  let text ← text engine expression
  let fail {α : Type} (reason : Octets) : Act α :=
    Act.fail ("arithmetic expression: " ++ reason ++ ": \"" ++ text ++ "\"")
  match Expression.read text with
  | .error reason => fail reason
  | .ok expression =>
    let value ← expression.eval variableNumber
      (fun name value => Act.assign name (Numeral.ofInt value.toInt))
      (fail "division by zero")
    return Glyph.ofText (Numeral.ofInt value.toInt) quoted

/-- The glyphs of plain text without quotes.  Where it stands in for a
parameter, it is cut into fields like the value of one. -/
def plainGlyphs (mode : Mode) (text : Octets) : List Glyph :=
  if mode.within && mode.toFields then Glyph.ofText text false
  else (Letter.ofText text false).map .fixed

/-- The glyphs of a part. -/
def partGlyphs (engine : Engine) (mode : Mode) : Part → Act (List Glyph)
  | .plain text true =>
    return .mark :: (Letter.ofText text true).map .fixed
  | .plain text false => return plainGlyphs mode text
  | .parameter name usage quoted =>
    parameterGlyphs engine mode name usage quoted
  | .output body quoted => outputGlyphs engine body quoted
  | .arithmetic expression quoted => arithmeticGlyphs engine expression quoted

/-- The glyphs of parts. -/
def glyphs (engine : Engine) (mode : Mode) (parts : List Part) :
    Act (List Glyph) := do
  return (← parts.mapM (partGlyphs engine mode)).flatten

/-- The fields of a word. -/
def fields (engine : Engine) (word : Word) : Act (List Octets) := do
  let glyphs ← engine.expand { toFields := true } word
  return (Glyph.fields (← get).separators glyphs).map Letter.text

end Expansion

end Script
end OrderEncoding

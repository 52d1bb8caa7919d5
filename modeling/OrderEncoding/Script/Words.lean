import OrderEncoding.Script.Source

/-!
# Reading words

A word is a run of parts.  Quotes, braces and the parentheses of arithmetic each
have their own rules for what ends them and what a backslash protects.
-/

namespace OrderEncoding
namespace Script

/-- Where the parts of a word stand. -/
inductive Surroundings where
  | bare
  | quotes
  /-- After the operator of a parameter in braces.  When quoted, double quotes
  inside only change whether a closing brace ends the word. -/
  | braces (quoted inner : Bool)
  /-- In arithmetic, with a number of open parentheses. -/
  | arithmetic (depth : Nat)
  | document
deriving DecidableEq, Repr

namespace Surroundings

/-- Whether plain text is quoted here. -/
def quoted : Surroundings → Bool
  | .bare => false
  | .braces quoted _ => quoted
  | _ => true

/-- Octets that end a bare word. -/
def delimiters : List Char :=
  ['\n', '\t', ' ', ';', '&', '|', '<', '>', '(', ')']

/-- Octets that lose their meaning after a backslash; elsewhere the backslash
stays. -/
def protectable : Surroundings → List Char
  | .document => ['$', '\x60', '\\']
  | .braces true _ => ['$', '\x60', '\\', '"', '\x7d']
  | _ => ['$', '\x60', '\\', '"']

/-- What is wrong when a script ends here, if it may not. -/
def endFault? : Surroundings → Option Octets
  | .bare => none
  | .document => none
  | .quotes => some "Unterminated quoted string"
  | .braces true _ => some "Unterminated quoted string"
  | .braces false _ => some "Missing '\x7d'"
  | .arithmetic _ => some "Missing '))'"

end Surroundings

/-- What a next octet does in its surroundings. -/
inductive Role where
  /-- It ends the parts, and is taken along if it belongs to them. -/
  | ends (taken : Bool)
  | escape
  | singleQuote
  | doubleQuote
  | dollar
  | backquote
  | plain
  /-- It is plain and changes the surroundings. -/
  | shifts (next : Surroundings)
  /-- It is no text and changes the surroundings. -/
  | vanishes (next : Surroundings)
  | closesArithmetic
deriving DecidableEq, Repr

/-- The role of an octet. -/
def Surroundings.role (place : Surroundings) (octet : Char) : Role :=
  match octet, place with
  | '\\', _ => .escape
  | '$', _ => .dollar
  | '\x60', _ => .backquote
  | '\'', .bare => .singleQuote
  | '\'', .braces false _ => .singleQuote
  | '"', .bare => .doubleQuote
  | '"', .braces false _ => .doubleQuote
  | '"', .quotes => .ends true
  | '"', .braces true inner => .vanishes (.braces true !inner)
  | '\x7d', .braces _ false => .ends true
  | '(', .arithmetic depth => .shifts (.arithmetic (depth + 1))
  | ')', .arithmetic 0 => .closesArithmetic
  | ')', .arithmetic (depth + 1) => .shifts (.arithmetic depth)
  | _, .bare => if octet ∈ delimiters then .ends false else .plain
  | _, _ => .plain

/-- How the commands inside words are read. -/
structure BodyReader where
  /-- Reads commands up to a closing parenthesis. -/
  enclosed : Reading Command
  /-- Reads commands up to the end. -/
  all : Reading Command

/-- Parts with one more, the last one first. -/
def addPart (parts : List Part) (part : Part) : List Part :=
  match part, parts with
  | .plain text quoted, .plain before quotedBefore :: rest =>
    if quoted = quotedBefore then .plain (before ++ text) quoted :: rest
    else part :: parts
  | _, _ => part :: parts

/-- Parts with one more octet of plain text. -/
def addOctet (parts : List Part) (octet : Char) (quoted : Bool) : List Part :=
  addPart parts (.plain (String.singleton octet) quoted)

/-- The parts of a text in double quotes.  They are something even when the text
is empty, unless it stands for as many fields as there are arguments. -/
def quotedParts : List Part → List Part
  | [.parameter "@" .value quoted] => [.parameter "@" .value quoted]
  | parts => .mark :: parts

/-- Names of parameters that are a single octet. -/
def isSpecial (octet : Char) : Bool :=
  octet ∈ ['@', '*', '#', '?', '-', '$', '!']

namespace Words

open Reading

/-- Takes the rest of a text in single quotes. -/
def readSingle : Nat → List Char → Reading Octets
  | 0, _ => refuse "Unterminated quoted string"
  | count + 1, taken => do
    match ← takePlain with
    | none => refuse "Unterminated quoted string"
    | some '\'' => return String.ofList taken.reverse
    | some octet => readSingle count (octet :: taken)

/-- Takes the rest of a text in backquotes, where backslashes protect some
octets. -/
def readBackquoted (quoted : Bool) : Nat → List Char → Reading (List Char)
  | 0, _ => refuse "EOF in backquote substitution"
  | count + 1, taken => do
    match ← look with
    | none => refuse "EOF in backquote substitution"
    | some '\x60' =>
      drop
      return taken.reverse
    | some '\\' =>
      drop
      match ← takePlain with
      | none => refuse "EOF in backquote substitution"
      | some octet =>
        let alone := octet ∈ ['\\', '\x60', '$'] || (quoted && octet = '"')
        readBackquoted quoted count
          (if alone then octet :: taken else octet :: '\\' :: taken)
    | some octet =>
      drop
      readBackquoted quoted count (octet :: taken)

/-- Takes the name of a parameter in braces; `none` if there is none. -/
def readName : Reading (Option Octets) := do
  match ← look with
  | none => return none
  | some first =>
    if isNameStart first then return some (← takeAll isNamePart)
    else if first.isDigit then return some (← takeAll Char.isDigit)
    else if isSpecial first then
      drop
      return some (String.singleton first)
    else return none

/-- How the word after an operator is used. -/
def usageOf? (orEmpty : Bool) : Char → Option (Word → Usage)
  | '-' => some (.instead orEmpty)
  | '=' => some (.assigned orEmpty)
  | '?' => some (.demanded orEmpty)
  | '+' => some (.given orEmpty)
  | _ => none

mutual

/-- Takes parts up to what ends them.  Those already taken come last one
first. -/
def readParts (bodies : BodyReader) :
    Nat → Surroundings → List Part → Reading (List Part)
  | 0, _, _ => refuse "too long"
  | depth + 1, place, parts => do
    match ← look with
    | none =>
      match place.endFault? with
      | some reason => refuse reason
      | none => return parts.reverse
    | some octet =>
      match place.role octet with
      | .ends taken =>
        if taken then drop
        return parts.reverse
      | .plain =>
        drop
        readParts bodies depth place (addOctet parts octet place.quoted)
      | .shifts next =>
        drop
        readParts bodies depth next (addOctet parts octet true)
      | .vanishes next =>
        drop
        readParts bodies depth next (addPart parts .mark)
      | .closesArithmetic =>
        drop
        if ← accept ')' then return parts.reverse
        else readParts bodies depth place (addOctet parts octet true)
      | .escape =>
        drop
        readParts bodies depth place (← readEscape place parts)
      | .singleQuote =>
        drop
        let text ← readSingle ((← get).rest.length + 1) []
        readParts bodies depth place (addPart parts (.plain text true))
      | .doubleQuote =>
        drop
        let inside ← readParts bodies depth .quotes []
        readParts bodies depth place ((quotedParts inside).foldl addPart parts)
      | .dollar =>
        drop
        let part ← readParameter bodies depth place.quoted
        readParts bodies depth place (addPart parts part)
      | .backquote =>
        drop
        let text ← readBackquoted place.quoted ((← get).rest.length + 1) []
        let body ← onText text do
          modify fun source => { source with line := 1 }
          bodies.all
        readParts bodies depth place (addPart parts (.output body place.quoted))

/-- Takes the octet after a backslash. -/
def readEscape (place : Surroundings) (parts : List Part) :
    Reading (List Part) := do
  match ← lookPlain with
  | none => return addOctet parts '\\' true
  | some octet =>
    drop
    let stays := place.quoted && octet ∉ place.protectable
    return addOctet (if stays then addOctet parts '\\' true else parts) octet
      true

/-- Takes what follows a dollar sign. -/
def readParameter (bodies : BodyReader) : Nat → Bool → Reading Part
  | 0, _ => refuse "too long"
  | depth + 1, quoted => do
    match ← look with
    | some '(' =>
      drop
      if ← accept '(' then
        return .arithmetic (← readParts bodies depth (.arithmetic 0) []) quoted
      else
        return .output (← bodies.enclosed) quoted
    | some '\x7b' =>
      drop
      readBraces bodies depth quoted
    | some octet =>
      if isNameStart octet then
        return .parameter (← takeAll isNamePart) .value quoted
      else if octet.isDigit || isSpecial octet then
        drop
        return .parameter (String.singleton octet) .value quoted
      else
        return .plain "$" quoted
    | none => return .plain "$" quoted

/-- Takes a parameter in braces. -/
def readBraces (bodies : BodyReader) : Nat → Bool → Reading Part
  | 0, _ => refuse "too long"
  | depth + 1, quoted => do
    match ← readName with
    | none => readMalformed bodies depth quoted
    | some "#" => readLength bodies depth quoted
    | some name => readUsage bodies depth quoted name

/-- Takes what follows a number sign in braces: a parameter whose length is
asked for, or an operator on the number of arguments. -/
def readLength (bodies : BodyReader) : Nat → Bool → Reading Part
  | 0, _ => refuse "too long"
  | depth + 1, quoted => do
    let source ← get
    match ← readName with
    | none => readUsage bodies depth quoted "#"
    | some name =>
      if ← accept '\x7d' then return .parameter name .length quoted
      else if name.toList.any isNamePart then
        readMalformed bodies depth quoted
      else
        set source
        readUsage bodies depth quoted "#"

/-- Takes the rest of a parameter in braces after its name. -/
def readUsage (bodies : BodyReader) : Nat → Bool → Octets → Reading Part
  | 0, _, _ => refuse "too long"
  | depth + 1, quoted, name => do
    let orEmpty ← accept ':'
    match ← look with
    | none => readMalformed bodies depth quoted
    | some octet =>
      drop
      match usageOf? orEmpty octet with
      | some usage =>
        let word ← readParts bodies depth (.braces quoted false) []
        return .parameter name (usage word) quoted
      | none =>
        if octet = '\x7d' && !orEmpty then
          return .parameter name .value quoted
        else if octet ∈ ['%', '#'] && !orEmpty then
          let longest ← accept octet
          let pattern ← readParts bodies depth (.braces false false) []
          return .parameter name (.trimmed (octet = '%') longest pattern) quoted
        else
          readMalformed bodies depth quoted

/-- Takes the rest of a parameter in braces that makes no sense. -/
def readMalformed (bodies : BodyReader) : Nat → Bool → Reading Part
  | 0, _ => refuse "too long"
  | depth + 1, quoted => do
    let _ ← readParts bodies depth (.braces quoted false) []
    return .parameter "" .malformed quoted

end

/-- Takes parts up to what ends them. -/
def read (bodies : BodyReader) (place : Surroundings) : Reading Word := do
  readParts bodies (8 * (← get).rest.length + 8) place []

/-- Takes the lines of a document up to its ending, as they stand.  A line that
goes on in the next one keeps that from being the ending. -/
def documentText (due : DueDocument) :
    Bool → List (List Char) → List Char × Nat × List (List Char)
  | _, [] => ([], 0, [])
  | goesOn, line :: rest =>
    let line := if due.dropTabs then line.dropWhile (· = '\t') else line
    if !goesOn && String.ofList line = due.ending then ([], 1, rest)
    else
      let slashes := (line.reverse.takeWhile (· = '\\')).length
      let (text, count, left) :=
        documentText due (due.expanded && slashes % 2 = 1) rest
      let ending := if rest.isEmpty then [] else ['\n']
      (line ++ ending ++ text, count + 1, left)

/-- Takes the text of one document. -/
def readDocument (bodies : BodyReader) (due : DueDocument) :
    Reading Unit := do
  let source ← get
  let lines := if source.rest.isEmpty then [] else source.rest.splitOn '\n'
  let (text, count, left) := documentText due false lines
  let word ←
    if due.expanded then onText text (read bodies .document)
    else pure [.plain (String.ofList text) true]
  modify fun after =>
    { after with
      rest := ['\n'].intercalate left
      line := source.line + count
      documents := after.documents.setIfInBounds due.number word }

/-- Takes the texts of the documents that are due, which begin after the line
that names them. -/
def readDocuments (bodies : BodyReader) : Reading Unit := do
  let due := (← get).due
  modify fun source => { source with due := [] }
  due.forM (readDocument bodies)

end Words

end Script
end OrderEncoding

import OrderEncoding.Script.Words

/-!
# Reading scripts

Tokens are read as commands: lists joined by `;`, `&` and line feeds, chains of
`&&` and `||`, pipelines, and simple and compound commands.  A script is read
one complete line at a time, so that what a line does happens before the next
one is read.
-/

namespace OrderEncoding
namespace Script

/-- The words that have a meaning of their own where a command begins. -/
def keywords : List Octets :=
  ["!", "case", "do", "done", "elif", "else", "esac", "fi", "for", "if", "in",
    "then", "until", "while", "\x7b", "\x7d"]

/-- Tokens before which a list of commands may end. -/
def listEndings : List Octets :=
  ["do", "done", "elif", "else", "esac", "fi", "then", "\x7d", ")", ";;"]

/-- Names that no function can have. -/
def specialNames : List Octets :=
  [":", "break", "continue", "eval", "exec", "exit", "export", "local",
    "readonly", "return", "set", "shift", "trap", "unset"]

/-- How a list of commands ends. -/
inductive Extent where
  /-- At the end of the line. -/
  | line
  /-- At a token that no command begins with; the list is not empty. -/
  | body
  /-- Likewise, but the list may be empty. -/
  | open
deriving DecidableEq, Repr

/-- Which tokens are looked for. -/
structure Manner where
  /-- Whether keywords are told from words. -/
  keywords : Bool := false
  /-- Whether line feeds are passed over. -/
  skipLines : Bool := false

namespace Manner

def command : Manner := { keywords := true, skipLines := true }
def sameLine : Manner := { keywords := true }
def plain : Manner := {}

end Manner

namespace Reader

open Reading

/-- Passes over blanks and comments. -/
def skipBlanks : Nat → Reading Unit
  | 0 => return
  | count + 1 => do
    match ← look with
    | some ' ' | some '\t' =>
      drop
      skipBlanks count
    | some '#' => dropComment count
    | _ => return
where
  /-- Passes over the rest of a comment. -/
  dropComment : Nat → Reading Unit
    | 0 => return
    | count + 1 => do
      match ← lookPlain with
      | none | some '\n' => return
      | some _ =>
        drop
        dropComment count

/-- Takes an operator that may be doubled. -/
def readDoubled (octet : Char) : Reading Token := do
  drop
  if ← accept octet then
    return .operator (String.ofList [octet, octet])
  else
    return .operator (String.singleton octet)

/-- Takes the arrow of a redirection. -/
def readArrow (descriptor : Option Nat) (outward : Bool) : Reading Token := do
  let token (arrow : Arrow) : Token :=
    .redirection (descriptor.getD (if outward then 1 else 0)) arrow
  if outward then
    if ← accept '>' then return token (.file .extending)
    else if ← accept '&' then return token .copy
    else return token (.file .output)
  else if ← accept '<' then
    return token (.document (← accept '-'))
  else if ← accept '&' then return token .copy
  else return token (.file .input)

/-- Takes a word, or a redirection with its descriptor. -/
def readWord (bodies : BodyReader) : Reading Token := do
  let word ← Words.read bodies .bare
  let arrow (descriptor : Option Nat) : Reading Token := do
    match ← look with
    | some '>' =>
      drop
      readArrow descriptor true
    | some '<' =>
      drop
      readArrow descriptor false
    | _ => return .word word
  match word with
  | [] => arrow none
  | [.plain text false] =>
    match text.toList with
    | [digit] =>
      if digit.isDigit then arrow (some (digit.toNat - '0'.toNat))
      else return .word word
    | _ => return .word word
  | _ => return .word word

/-- Takes a token from the text. -/
def readFresh (bodies : BodyReader) : Reading Token := do
  skipBlanks (2 * (← get).rest.length + 2)
  match ← look with
  | none => return .ending
  | some '\n' =>
    drop
    return .lineFeed
  | some '&' => readDoubled '&'
  | some '|' => readDoubled '|'
  | some ';' => readDoubled ';'
  | some '(' =>
    drop
    return .operator "("
  | some ')' =>
    drop
    return .operator ")"
  | some _ => readWord bodies

/-- Takes the token that was put back, or the next one of the text. -/
def readAny (bodies : BodyReader) : Reading Token := do
  match (← get).pushed with
  | some token =>
    modify fun source => { source with pushed := none }
    return token
  | none => readFresh bodies

/-- Takes a token that is no line feed. -/
def readBeyondLines (bodies : BodyReader) : Nat → Reading Token
  | 0 => return .ending
  | count + 1 => do
    match ← readAny bodies with
    | .lineFeed =>
      Words.readDocuments bodies
      readBeyondLines bodies count
    | token => return token

/-- Takes a token. -/
def readToken (bodies : BodyReader) (manner : Manner) : Reading Token := do
  let token ←
    if manner.skipLines then
      readBeyondLines bodies ((← get).rest.length + 2)
    else readAny bodies
  match token with
  | .word word =>
    match word.bare? with
    | some text =>
      return if manner.keywords && text ∈ keywords then .keyword text else token
    | none => return token
  | _ => return token

/-- Puts a token back. -/
def putBack (token : Token) : Reading Unit :=
  modify fun source => { source with pushed := some token }

/-- Gives up because of a token that is out of place. -/
def unexpected (token : Token) : Reading α :=
  refuse (token.name ++ " unexpected")

/-- Gives up because of a token that is not the one to be expected. -/
def expecting (token : Token) (expected : Octets) : Reading α :=
  refuse (token.name ++ " unexpected (expecting " ++ expected ++ ")")

/-- Whether a token is the given keyword. -/
def isKeyword (token : Token) (text : Octets) : Bool :=
  match token with
  | .keyword other => text = other
  | _ => false

/-- Whether a token is the given operator. -/
def isOperator (token : Token) (text : Octets) : Bool :=
  match token with
  | .operator other => text = other
  | _ => false

/-- Whether a list of commands may end before a token. -/
def endsList : Token → Bool
  | .keyword text | .operator text => text ∈ listEndings
  | .ending => true
  | _ => false

/-- Takes a keyword that has to come. -/
def demandKeyword (bodies : BodyReader) (manner : Manner) (text : Octets) :
    Reading Unit := do
  let token ← readToken bodies manner
  if !isKeyword token text then expecting token (Token.quotedName text)

/-- Whether a word assigns a value to a variable. -/
def isAssignment : Word → Bool
  | .plain text false :: _ =>
    let name := text.toList.takeWhile (· ≠ '=')
    name.length < text.length && isName (String.ofList name)
  | _ => false

/-- Takes the word of a redirection. -/
def readTarget (bodies : BodyReader) (descriptor : Nat) (arrow : Arrow) :
    Reading Redirection := do
  match ← readToken bodies .plain with
  | .word word =>
    match arrow with
    | .file opening => return .file descriptor opening word
    | .copy => return .copy descriptor word
    | .document dropTabs =>
      let source ← get
      let number := source.documents.size
      let due : DueDocument :=
        { number
          ending := (word.plain?).getD ""
          dropTabs
          expanded := !word.hasQuotes }
      set { source with
        due := source.due ++ [due]
        documents := source.documents.push [] }
      return .document descriptor number
  | token => unexpected token

/-- Takes the redirections that follow a compound command. -/
def readRedirections (bodies : BodyReader) : Nat → Reading (List Redirection)
  | 0 => return []
  | count + 1 => do
    match ← readToken bodies .sameLine with
    | .redirection descriptor arrow =>
      let first ← readTarget bodies descriptor arrow
      return first :: (← readRedirections bodies count)
    | token =>
      putBack token
      return []

/-- What has been read of a simple command. -/
structure SimpleParts where
  line : Nat
  assignments : List Word := []
  words : List Word := []
  redirections : List Redirection := []

/-- The command of simple parts. -/
def SimpleParts.command (parts : SimpleParts) : Command :=
  .simple parts.line parts.assignments parts.words parts.redirections

/-- The name of the function that begins here, if one can. -/
def SimpleParts.functionName? (parts : SimpleParts) : Option Word :=
  match parts with
  | { assignments := [], words := [word], redirections := [], .. } => some word
  | _ => none

/-- Takes the words of a loop up to the end of its line. -/
def readLoopWords (bodies : BodyReader) : Nat → Reading (List Word)
  | 0 => return []
  | count + 1 => do
    match ← readToken bodies .plain with
    | .word word => return word :: (← readLoopWords bodies count)
    | .lineFeed => return []
    | token =>
      if isOperator token ";" then return [] else unexpected token

/-- The word of a token, where no check is made. -/
def anyWord : Token → Word
  | .word word => word
  | .keyword text | .operator text => [.plain text false]
  | _ => []

/-- Takes the patterns of a case after the first one, and the parenthesis after
them. -/
def readPatterns (bodies : BodyReader) : Nat → Reading (List Word)
  | 0 => return []
  | count + 1 => do
    let token ← readToken bodies .plain
    if isOperator token "|" then
      let pattern := anyWord (← readToken bodies .plain)
      return pattern :: (← readPatterns bodies count)
    else if isOperator token ")" then return []
    else expecting token "\")\""

mutual

/-- How the bodies inside words are read. -/
def bodies : Nat → BodyReader
  | 0 => { enclosed := refuse "too deep", all := refuse "too deep" }
  | depth + 1 =>
    { enclosed := do
        let due := (← get).due
        modify fun source => { source with due := [] }
        let body ← readList depth .open
        let token ← readToken (bodies depth) .plain
        if !isOperator token ")" then expecting token "\")\""
        onText [] (Words.readDocuments (bodies depth))
        modify fun source => { source with due }
        return body
      all := readList depth .open }

/-- Takes a list of commands. -/
def readList : Nat → Extent → Reading Command
  | 0, _ => refuse "too deep"
  | depth + 1, extent => readItems depth extent (extent = .open) none

/-- Takes the rest of a list of commands. -/
def readItems : Nat → Extent → Bool → Option Command → Reading Command
  | 0, _, _, _ => refuse "too deep"
  | depth + 1, extent, mayEnd, before => do
    let inner := bodies depth
    let line := extent = .line
    let token ← readToken inner { keywords := true, skipLines := !line }
    match token with
    | .lineFeed =>
      Words.readDocuments inner
      return before.getD .empty
    | .ending =>
      Words.readDocuments inner
      putBack .ending
      return before.getD .empty
    | _ =>
      putBack token
      if mayEnd && !line && endsList token then
        return before.getD .empty
      else
        let item ← readChain depth
        let next ← readToken inner .plain
        let isBackground := isOperator next "&"
        let item := if isBackground then .background item else item
        let whole := (before.map fun first => .sequence first item).getD item
        match next with
        | .ending =>
          Words.readDocuments inner
          putBack .ending
          return whole
        | .lineFeed =>
          putBack next
          readItems depth extent true (some whole)
        | _ =>
          if isBackground || isOperator next ";" then
            readItems depth extent true (some whole)
          else if line then unexpected next
          else
            putBack next
            return whole

/-- Takes commands joined by `&&` and `||`. -/
def readChain : Nat → Reading Command
  | 0 => refuse "too deep"
  | depth + 1 => do
    let first ← readPipeline depth none
    continueChain depth first

/-- Takes the rest of commands joined by `&&` and `||`. -/
def continueChain : Nat → Command → Reading Command
  | 0, _ => refuse "too deep"
  | depth + 1, first => do
    let token ← readToken (bodies depth) .plain
    if isOperator token "&&" then
      let second ← readPipeline depth (some .command)
      continueChain depth (.both first second)
    else if isOperator token "||" then
      let second ← readPipeline depth (some .command)
      continueChain depth (.either first second)
    else
      putBack token
      return first

/-- Takes commands joined by `|`, and a `!` before them.  The first token is
looked for in the given manner. -/
def readPipeline : Nat → Option Manner → Reading Command
  | 0, _ => refuse "too deep"
  | depth + 1, manner => do
    let inner := bodies depth
    let token ← readToken inner (manner.getD .plain)
    let negated := isKeyword token "!"
    if !negated then putBack token
    let first ← readCommand depth (if negated then .sameLine else .plain)
    let commands ← continuePipeline depth [first]
    let command :=
      match commands with
      | [single] => single
      | _ => .pipeline commands
    return if negated then .negation command else command

/-- Takes the rest of a pipeline; the commands before come last one first. -/
def continuePipeline : Nat → List Command → Reading (List Command)
  | 0, _ => refuse "too deep"
  | depth + 1, before => do
    let token ← readToken (bodies depth) .plain
    if isOperator token "|" then
      let command ← readCommand depth .command
      continuePipeline depth (command :: before)
    else
      putBack token
      return before.reverse

/-- Takes one command. -/
def readCommand : Nat → Manner → Reading Command
  | 0, _ => refuse "too deep"
  | depth + 1, manner => do
    let inner := bodies depth
    let line := (← get).line
    let token ← readToken inner manner
    match token with
    | .word _ | .redirection _ _ =>
      putBack token
      readSimple depth { line }
    | .operator "(" =>
      let body ← readList depth .body
      let closing ← readToken inner .plain
      if !isOperator closing ")" then expecting closing "\")\""
      let redirections ← readRedirections inner ((← get).rest.length + 2)
      return .subshell line body redirections
    | .keyword "if" => readRest depth line (← readBranch depth) "fi"
    | .keyword "while" => readRest depth line (← readLoop depth false) "done"
    | .keyword "until" => readRest depth line (← readLoop depth true) "done"
    | .keyword "for" => readRest depth line (← readEach depth line) "done"
    | .keyword "\x7b" => readRest depth line (← readList depth .body) "\x7d"
    | .keyword "case" =>
      let command ← readChoice depth line
      let redirections ← readRedirections inner ((← get).rest.length + 2)
      return if redirections.isEmpty then command
        else .redirected line command redirections
    | _ => unexpected token

/-- Takes the keyword that closes a compound command, and redirections. -/
def readRest : Nat → Nat → Command → Octets → Reading Command
  | 0, _, _, _ => refuse "too deep"
  | depth + 1, line, command, closing => do
    let inner := bodies depth
    demandKeyword inner .plain closing
    let redirections ← readRedirections inner ((← get).rest.length + 2)
    return if redirections.isEmpty then command
      else .redirected line command redirections

/-- Takes a branch after `if` or `elif`, up to its end. -/
def readBranch : Nat → Reading Command
  | 0 => refuse "too deep"
  | depth + 1 => do
    let inner := bodies depth
    let test ← readList depth .body
    demandKeyword inner .plain "then"
    let yes ← readList depth .body
    let token ← readToken inner .plain
    if isKeyword token "elif" then
      return .branch test yes (← readBranch depth)
    else if isKeyword token "else" then
      return .branch test yes (← readList depth .body)
    else
      putBack token
      return .branch test yes .empty

/-- Takes a loop with a test, up to its end. -/
def readLoop : Nat → Bool → Reading Command
  | 0, _ => refuse "too deep"
  | depth + 1, untilSuccess => do
    let test ← readList depth .body
    demandKeyword (bodies depth) .plain "do"
    return .loop untilSuccess test (← readList depth .body)

/-- Takes a loop over words, up to its end. -/
def readEach : Nat → Nat → Reading Command
  | 0, _ => refuse "too deep"
  | depth + 1, line => do
    let inner := bodies depth
    match ← readToken inner .plain with
    | .word word =>
      match word.bare?.filter isName with
      | none => refuse "Bad for loop variable"
      | some name =>
        let token ← readToken inner .command
        let words ←
          if isKeyword token "in" then
            readLoopWords inner ((← get).rest.length + 2)
          else do
            if !isOperator token ";" then putBack token
            pure [quotedParts [.parameter "@" .value true]]
        demandKeyword inner .command "do"
        return .each line name words (← readList depth .body)
    | _ => refuse "Bad for loop variable"

/-- Takes a choice after `case`. -/
def readChoice : Nat → Nat → Reading Command
  | 0, _ => refuse "too deep"
  | depth + 1, line => do
    let inner := bodies depth
    match ← readToken inner .plain with
    | .word subject =>
      let token ← readToken inner .command
      if !isKeyword token "in" then expecting token "\"in\""
      return .choose line subject (← readCases depth)
    | token => expecting token "word"

/-- Takes the cases of a choice and its end. -/
def readCases : Nat → Reading (List Case)
  | 0 => refuse "too deep"
  | depth + 1 => do
    let inner := bodies depth
    let token ← readToken inner .command
    if isKeyword token "esac" then return []
    let first ←
      if isOperator token "(" then readToken inner .plain else pure token
    let more ← readPatterns inner ((← get).rest.length + 2)
    let body ← readList depth .open
    let cases (rest : List Case) : List Case :=
      .case (anyWord first :: more) body :: rest
    let closing ← readToken inner .command
    if isKeyword closing "esac" then return cases []
    else if isOperator closing ";;" then return cases (← readCases depth)
    else expecting closing "\";;\""

/-- Takes the rest of a simple command, or a function if one begins. -/
def readSimple : Nat → SimpleParts → Reading Command
  | 0, _ => refuse "too deep"
  | depth + 1, parts => do
    let inner := bodies depth
    let token ← readToken inner .plain
    match token with
    | .word word =>
      if parts.words.isEmpty && isAssignment word then
        readSimple depth
          { parts with assignments := parts.assignments ++ [word] }
      else readSimple depth { parts with words := parts.words ++ [word] }
    | .redirection descriptor arrow =>
      let redirection ← readTarget inner descriptor arrow
      readSimple depth
        { parts with redirections := parts.redirections ++ [redirection] }
    | .operator "(" =>
      match parts.functionName? with
      | none =>
        putBack token
        return parts.command
      | some word =>
        let closing ← readToken inner .plain
        if !isOperator closing ")" then expecting closing "\")\""
        match word.bare?.filter fun name => isName name && name ∉ specialNames
        with
        | none => refuse "Bad function name"
        | some name =>
          return .define parts.line name (← readCommand depth .command)
    | _ =>
      putBack token
      return parts.command

end

/-- Takes the next complete line of commands; `none` at the end. -/
def readLine : Reading (Option Command) := do
  let depth := 16 * (← get).rest.length + 16
  modify fun source => { source with pushed := none, due := [] }
  let token ← readToken (bodies depth) .sameLine
  match token with
  | .ending => return none
  | _ =>
    putBack token
    return some (← readList depth .line)

end Reader

end Script
end OrderEncoding

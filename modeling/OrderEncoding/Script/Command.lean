import OrderEncoding.Script.Octets

/-!
# Commands of scripts

A script is a command of the shell language.  The words of a command are made of
parts: plain text, parameters, the output of commands and arithmetic.  The
documents of a script, which are texts inside it that commands read, stand apart
from the commands and are numbered.
-/

namespace OrderEncoding
namespace Script

/-- How a redirection opens its file. -/
inductive Opening where
  | input
  | output
  | extending
deriving DecidableEq, Repr

mutual

/-- A part of a word.  Quoted parts are not cut into fields, and none of their
characters has a meaning of its own. -/
inductive Part where
  | plain (text : Octets) (quoted : Bool)
  | parameter (name : Octets) (usage : Usage) (quoted : Bool)
  /-- What a command prints. -/
  | output (body : Command) (quoted : Bool)
  /-- The value of the arithmetic expression that the parts make up. -/
  | arithmetic (expression : List Part) (quoted : Bool)

/-- What is made of a parameter.  Where a word stands in for a parameter that is
not set, it may also stand in for an empty one. -/
inductive Usage where
  | value
  | length
  /-- The word stands in for the parameter. -/
  | instead (orEmpty : Bool) (word : List Part)
  /-- The word becomes the value of the parameter. -/
  | assigned (orEmpty : Bool) (word : List Part)
  /-- The word is what is complained of. -/
  | demanded (orEmpty : Bool) (word : List Part)
  /-- The word stands in for a parameter that is set. -/
  | given (orEmpty : Bool) (word : List Part)
  /-- What matches the pattern is cut off at an end. -/
  | trimmed (atEnd longest : Bool) (pattern : List Part)
  | malformed

/-- A change of what a descriptor leads to. -/
inductive Redirection where
  | file (descriptor : Nat) (opening : Opening) (target : List Part)
  | copy (descriptor : Nat) (source : List Part)
  | document (descriptor : Nat) (number : Nat)

/-- A command. -/
inductive Command where
  | empty
  | simple
      (line : Nat)
      (assignments words : List (List Part))
      (redirections : List Redirection)
  | sequence (first second : Command)
  | background (body : Command)
  /-- The second command runs if the first one succeeds. -/
  | both (first second : Command)
  /-- The second command runs if the first one fails. -/
  | either (first second : Command)
  | negation (body : Command)
  /-- The output of each command is the input of the next. -/
  | pipeline (commands : List Command)
  /-- The body cannot change the shell around it. -/
  | subshell
      (line : Nat)
      (body : Command)
      (redirections : List Redirection)
  | redirected
      (line : Nat)
      (body : Command)
      (redirections : List Redirection)
  | branch (test yes no : Command)
  /-- The body runs again as long as the test succeeds, or fails. -/
  | loop (untilSuccess : Bool) (test body : Command)
  /-- The body runs for each field of the words. -/
  | each
      (line : Nat)
      (name : Octets)
      (words : List (List Part))
      (body : Command)
  /-- The first case with a pattern that matches the subject runs. -/
  | choose (line : Nat) (subject : List Part) (cases : List Case)
  | define (line : Nat) (name : Octets) (body : Command)

/-- A case of a choice. -/
inductive Case where
  | case (patterns : List (List Part)) (body : Command)

end

/-- A word of a command. -/
abbrev Word := List Part

instance : Inhabited Command := ⟨.empty⟩

namespace Part

/-- Whether a part is quoted. -/
def isQuoted : Part → Bool
  | .plain _ quoted => quoted
  | .parameter _ _ quoted => quoted
  | .output _ quoted => quoted
  | .arithmetic _ quoted => quoted

/-- The part that shows that something is quoted, be it nothing. -/
def mark : Part := .plain "" true

end Part

namespace Word

/-- The text of a word that consists of plain text without quotes. -/
def bare? : Word → Option Octets
  | [.plain text false] => some text
  | _ => none

/-- The text of a word, if it holds plain text only. -/
def plain? (word : Word) : Option Octets :=
  let texts := word.mapM fun (part : Part) =>
    match part with
    | .plain text _ => some text
    | _ => none
  texts.map String.join

/-- Whether a part of a word is quoted. -/
def hasQuotes (word : Word) : Bool :=
  word.any Part.isQuoted

end Word

end Script
end OrderEncoding

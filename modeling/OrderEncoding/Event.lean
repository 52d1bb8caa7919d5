import OrderEncoding.Text.Numeral

/-!
# Log events

What a run tells about itself: messages with a level.  A reader asks for a level
and sees the events that are at least as severe.
-/

namespace OrderEncoding

/-- The levels of events, the most severe first. -/
inductive Level where
  | error
  | warn
  | info
  | debug
  | trace
deriving DecidableEq, Repr

/-- A message with a level. -/
structure Event where
  level : Level
  message : String
deriving DecidableEq, Repr

namespace Level

/-- All levels, the most severe first. -/
def all : List Level := [error, warn, info, debug, trace]

/-- The place of a level, one for the most severe. -/
def rank : Level → Nat
  | error => 1
  | warn => 2
  | info => 3
  | debug => 4
  | trace => 5

/-- The name of a level. -/
def name : Level → String
  | error => "error"
  | warn => "warn"
  | info => "info"
  | debug => "debug"
  | trace => "trace"

/-- The level of a rank or of a name in any case. -/
def read? (text : String) : Option Level :=
  match Numeral.readCount? text.toList with
  | some rank => all.find? (·.rank = rank)
  | none => all.find? fun level =>
    level.name.toList = text.toList.map Char.toLower

end Level

namespace Event

/-- An event of the level `debug`. -/
def debug (message : String) : Event :=
  { level := .debug, message }

/-- An event of the level `trace`. -/
def trace (message : String) : Event :=
  { level := .trace, message }

/-- The events that are at least as severe as a level. -/
def visible (level : Level) (events : List Event) : List Event :=
  events.filter fun event => event.level.rank ≤ level.rank

end Event
end OrderEncoding

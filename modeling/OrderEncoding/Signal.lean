import OrderEncoding.Text.Numeral

/-!
# Signals

A signal ends a process from outside.  It has a number, and most of them have a
name.
-/

namespace OrderEncoding
namespace Signal

/-- The names of the signals from one on; some numbers have none. -/
def names : List String :=
  ["HUP", "INT", "QUIT", "ILL", "TRAP", "ABRT", "BUS", "FPE", "KILL", "USR1",
    "SEGV", "USR2", "PIPE", "ALRM", "TERM", "", "CHLD", "CONT", "STOP", "TSTP",
    "TTIN", "TTOU", "URG", "XCPU", "XFSZ", "VTALRM", "PROF", "WINCH", "IO",
    "PWR", "SYS"]

/-- The greatest number of a signal. -/
def greatest : Nat := 64

/-- The first of the numbers that are free for programs. -/
def firstFree : Nat := 34

/-- The name of a signal as it is listed: one without a name goes by its number,
and the free ones are counted from their nearer end. -/
def name (signal : Nat) : String :=
  let named := (names[signal - 1]?).getD ""
  if 0 < signal && named ≠ "" then named
  else if signal = firstFree then "RTMIN"
  else if signal = greatest then "RTMAX"
  else if firstFree < signal && signal < firstFree + 16 then
    "RTMIN+" ++ Numeral.ofNat (signal - firstFree)
  else if firstFree < signal && signal < greatest then
    "RTMAX-" ++ Numeral.ofNat (greatest - signal)
  else Numeral.ofNat signal

/-- The signal of a name, in any case of its letters. -/
def ofName? (text : String) : Option Nat :=
  ((List.range (greatest + 1)).drop 1).find? fun signal =>
    name signal = text.toUpper

/-- Signals that do nothing unless they are waited for. -/
def harmless : List Nat := [17, 18, 23, 28]

/-- Signals that hold a process up until it is continued. -/
def holding : List Nat := [19, 20, 21, 22]

/-- How the end of a process by a signal is described; signal sixteen, which has
no name in the list, has one here. -/
def description (signal : Nat) : String :=
  let named := if signal = 16 then "STKFLT" else (names[signal - 1]?).getD ""
  "signal: " ++ Numeral.ofNat signal ++
    (if 0 < signal && named ≠ "" then " (SIG" ++ named ++ ")" else "")

end Signal
end OrderEncoding

import OrderEncoding.Script.Expansion

/-!
# Redirecting

A redirection makes a descriptor lead to a file, to what another descriptor
leads to, or to a text of the script.  Those of a command last as long as it
runs.
-/

namespace OrderEncoding
namespace Script

/-- A redirection with its words expanded. -/
inductive Target where
  | file (descriptor : Nat) (opening : Opening) (path : Octets)
  | copy (descriptor : Nat) (source : Option Nat)
  | text (descriptor : Nat) (octets : Octets)
deriving DecidableEq, Repr

namespace Target

/-- The target of a redirection. -/
def ofRedirection (engine : Engine) : Redirection → Act Target
  | .file descriptor opening target => do
    return .file descriptor opening (← Expansion.text engine target)
  | .copy descriptor source => do
    let text ← Expansion.text engine source
    return .copy descriptor (← Act.demandDescriptor text)
  | .document descriptor number => do
    let word := ((← get).documents[number]?).getD []
    return .text descriptor (← Expansion.text engine word)

/-- The descriptor that is redirected. -/
def descriptor : Target → Nat
  | .file descriptor _ _ => descriptor
  | .copy descriptor _ => descriptor
  | .text descriptor _ => descriptor

/-- Makes the descriptor lead to its target. -/
def aim : Target → Act Unit
  | .file descriptor opening path => do
    let number ← Act.openFile path opening
    modify fun shell => shell.withDescriptor descriptor (some number)
  | .copy descriptor source => Act.copyDescriptor descriptor source
  | .text descriptor octets => do
    let (shell, number) := (← get).withChannel (.pipe octets)
    set (shell.withDescriptor descriptor (some number))

end Target

namespace Act

/-- Opens targets, as far as this is possible, and tells whether it was. -/
def openAll (targets : List Target) : Act Bool := do
  try
    targets.forM Target.aim
    return true
  catch
    | .fault => return false
    | interrupt => throw interrupt

/-- Carries out an action while descriptors lead to their targets, and the other
action if they cannot.  Only these descriptors return to what they led to. -/
def redirecting (targets : List Target) (action refused : Act α) : Act α := do
  let before ← get
  let restore : Act Unit := modify fun shell =>
    targets.foldl (fun shell target =>
      shell.withDescriptor target.descriptor
        (before.channelOf? target.descriptor)) shell
  if ← openAll targets then
    try action
    finally restore
  else
    restore
    refused

end Act

end Script
end OrderEncoding

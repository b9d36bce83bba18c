import TapeMachine.Report

/-!
# The shell

A line of the shell is a whole program. It runs on a machine of its own, so nothing carries over
from one line to the next but the streams.

## Main definitions

* `TapeMachine.Shell` — how the shell sets up its machines.
* `TapeMachine.Shell.machine` — the machine for a line.
* `TapeMachine.Shell.eval` — the run of one line.
-/

set_option autoImplicit false

namespace TapeMachine

/-- How the shell sets up its machines. -/
structure Shell where
  /-- The set-up of each machine. -/
  config : Config
  /-- Whether runs of additions and subtractions are folded. -/
  fold : Bool

namespace Shell

/-- A fresh machine for a line of program text. -/
def machine (shell : Shell) (line : List UInt8) (reader : Reader) (writer : Writer) :
    Except BracketError Machine :=
  match Program.load line shell.fold with
  | .error e => .error e
  | .ok program => .ok (Machine.start program shell.config reader writer)

/-- Runs one line of program text and gives the streams back. The result is `none` if `fuel`
instructions do not suffice. -/
def eval (shell : Shell) (fuel : Nat) (line : List UInt8) (reader : Reader) (writer : Writer) :
    Option (Except RunError Stats × Reader × Writer) :=
  match shell.machine line reader writer with
  | .error e => some (.error (.load e), reader, writer)
  | .ok m =>
    (m.run fuel).map fun (result, m) =>
      (result.mapError .exec, m.input.reader, m.output.writer)

end Shell

end TapeMachine

import TapeMachine.CommandLine.Start
import TapeMachine.CommandLine.Step
import TapeMachine.Terminal.LineEditing

/-!
# The command at a terminal

Standard input may be a terminal. A script tells what happens at it: how long the operator waits,
what is typed, when the settings are looked at, and which signals are sent. Between two actions
of the script the command has time to go on until it waits for input.

## Main definitions

* `TapeMachine.Action` — what the script can do.
* `TapeMachine.Dialogue` — the command, the terminal, and what has been noted so far.
* `TapeMachine.Dialogue.launch` — the start of the command at a terminal.
* `TapeMachine.Dialogue.run` — the whole of a script, and the rest of the command's life.
-/

set_option autoImplicit false

namespace TapeMachine

/-- What happens at the terminal, or to the command. -/
inductive Action
  /-- The operator waits until so many bytes have been written to standard output, or the command
  has ended. -/
  | expect (count : Nat)
  /-- Bytes are typed. -/
  | send (bytes : List UInt8)
  /-- The settings are noted. -/
  | note
  /-- A signal is sent to the command. -/
  | signal (signal : Signal)
deriving DecidableEq, Repr

/-- A command at a terminal. -/
structure Dialogue where
  /-- The command. -/
  job : Job
  /-- The settings of the terminal and the handling of signals. -/
  mode : RawMode
  /-- The settings and the handling that the command has found. -/
  found : RawMode
  /-- What has been typed and not yet delivered. -/
  keyboard : Keyboard := {}
  /-- The settings noted so far. -/
  notes : List TerminalSettings := []
  /-- The signal that the command has died of. -/
  killedBy? : Option Signal := none

namespace Job

/-- Whether the command has ended. -/
def ended (job : Job) : Bool :=
  match job.activity with
  | .exited .. => true
  | _ => false

/-- Whether the command is running a program that can read input. -/
def runsReader (job : Job) : Bool :=
  match job.activity with
  | .running machine _ => machine.program.readsInput
  | _ => false

/-- Goes on until a condition holds or the command has ended; at most so many steps. -/
def advanceUntil (goal : Job → Bool) : Nat → Job → Job
  | 0, job => job
  | fuel + 1, job =>
    if goal job then job
    else
      match job.step with
      | .running job => advanceUntil goal fuel job
      | .ended _ job => job

end Job

namespace Dialogue

/-- Whether the command has ended or died. -/
def hasEnded (d : Dialogue) : Bool := d.killedBy?.isSome || d.job.ended

/-- Switches the terminal back once the command has ended. -/
def settle (d : Dialogue) : Dialogue :=
  if d.killedBy?.isNone && d.job.ended then { d with mode := d.mode.disable d.found } else d

/-- Whether reads wait for input. Where it is not delivered in lines they need not. -/
def patient (d : Dialogue) : Bool := d.mode.settings.canonical || 0 < d.mode.settings.minimum

/-- Lets the command go on until a condition holds, or it waits for input; at most so many
steps. -/
def advance (d : Dialogue) (goal : Job → Bool) (fuel : Nat) : Dialogue :=
  if d.hasEnded then d
  else
    let patient := d.patient
    { d with
      job := d.job.advanceUntil (fun job => goal job || patient && job.waiting) fuel }.settle

/-- The start of the command at a terminal. Only a run of a program that can read input switches
the terminal to raw mode. -/
def launch (job : Job) (settings : TerminalSettings) : Dialogue :=
  let found : RawMode := { settings }
  let d : Dialogue :=
    if job.runsReader then
      { job := { job with console := job.console.log .rawMode }
        mode := found.enable
        found }
    else
      { job, mode := found, found }
  d.settle

/-- Types bytes at the terminal. -/
def type (d : Dialogue) (bytes : List UInt8) : Dialogue :=
  let (keyboard, events) := d.keyboard.typeAll d.mode.settings bytes
  { d with keyboard, job := d.job.feed events }

/-- Sends a signal. The command dies of it; bytes that are pending in its output are lost. -/
def kill (d : Dialogue) (signal : Signal) : Dialogue :=
  if d.hasEnded then d else { d with mode := d.mode.receive signal, killedBy? := some signal }

/-- The number of bytes written to standard output. -/
def written (job : Job) : Nat := job.stdout.accepted.size

/-- Carries an action out. Before it the command has `patience` steps to reach a point at which it
waits, and `fuel` steps to write what the operator waits for. -/
def perform (fuel patience : Nat) (d : Dialogue) : Action → Dialogue
  | .expect count => d.advance (fun job => count ≤ written job) fuel
  | .send bytes => (d.advance (fun _ => false) patience).type bytes
  | .note =>
    let d := d.advance (fun _ => false) patience
    { d with notes := d.mode.settings :: d.notes }
  | .signal signal => (d.advance (fun _ => false) patience).kill signal

/-- Lets the command come to its end. A command that still waits for input then is at its end as
well: the terminal is closed, which ends the input. -/
def conclude (fuel : Nat) (d : Dialogue) : Dialogue :=
  let d := d.advance (fun _ => false) fuel
  if d.hasEnded then d else { d with job := d.job.feed [.eof] }.advance (fun _ => false) fuel

/-- The whole of a script, and the rest of the command's life. The settings are noted once more at
the end. -/
def run (fuel patience : Nat) (d : Dialogue) (script : List Action) : Dialogue :=
  let d := (script.foldl (perform fuel patience) d).conclude fuel
  { d with notes := d.mode.settings :: d.notes }

end Dialogue

end TapeMachine

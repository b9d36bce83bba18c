import TapeMachine.Debug.Debugger

/-!
# Debug sessions

A debug session executes a program and suspends it after each instruction, until the operator
asks for the rest to be executed at once. It advances in small steps, so that a session whose
input comes from a keyboard can be observed between them.

## Main definitions

* `TapeMachine.Session` — a machine, a debugger, and what the session is doing.
* `TapeMachine.Wiring` — whether commands and program input share one stream.
* `TapeMachine.Session.step` — one instruction, or the reaction to one line of the operator.
* `TapeMachine.Session.run` — a whole session.
-/

set_option autoImplicit false

namespace TapeMachine

/-- How a debug session ends when nothing fails. -/
inductive Exit
  /-- The program has been executed to its end. -/
  | completed (stats : Stats)
  /-- The operator has ended the session. -/
  | quit
deriving DecidableEq, Repr

/-- What a debug session is doing. -/
inductive Phase
  /-- It executes the next instruction, and suspends after it or not. -/
  | executing (suspending : Bool)
  /-- It waits for a line of the operator after an executed instruction. -/
  | asking (step : Step)
deriving DecidableEq, Repr

/-- Where the operator's lines come from. -/
inductive Wiring
  /-- From a stream of their own. -/
  | separate
  /-- From the stream that also holds the program's input. -/
  | shared
deriving DecidableEq, Repr

/-- A debug session. -/
structure Session where
  /-- The machine that executes the program. -/
  machine : Machine
  /-- The debugger. In a shared session its own commands are not used. -/
  debugger : Debugger
  /-- Where the operator's lines come from. -/
  wiring : Wiring
  /-- What the session is doing. -/
  phase : Phase

namespace Session

/-- A session at its start. -/
def start (machine : Machine) (debugger : Debugger) (wiring : Wiring) : Session where
  machine
  debugger
  wiring
  phase := .executing true

/-- The stream that holds the operator's lines. -/
def commands (s : Session) : Reader :=
  match s.wiring with
  | .separate => s.debugger.commands
  | .shared => s.machine.input.reader

/-- The debugger, with the stream that holds the operator's lines. -/
def operator (s : Session) : Debugger := { s.debugger with commands := s.commands }

/-- Takes the debugger back after it may have used up some of the operator's lines. -/
def withOperator (s : Session) (d : Debugger) : Session :=
  match s.wiring with
  | .separate => { s with debugger := d }
  | .shared =>
    { s with
      debugger := d
      machine := { s.machine with input := { s.machine.input with reader := d.commands } } }

/-- A session whose screen has been cleared, for what it shows to be passed on. -/
def clearScreen (s : Session) : Session :=
  { s with debugger := { s.debugger with screen := {} } }

/-- The outcome of a session, and what remains of it. -/
abbrev Result := Progress Session (Except Fault Exit)

/-- Executes one instruction; at the end of the program the run is finished. If the session is
suspending, the instruction is reported and the operator asked. -/
def advance (s : Session) (suspending : Bool) : Result :=
  match s.machine.instruction? with
  | none =>
    match s.machine.finish with
    | (.error fault, machine) => .ended (.error fault) { s with machine }
    | (.ok stats, machine) => .ended (.ok (.completed stats)) { s with machine }
  | some _ =>
    match s.machine.next with
    | (.error fault, machine) => .ended (.error fault) { s with machine }
    | (.ok step, machine) =>
      if suspending then
        match s.debugger.announce step with
        | (.error cause, debugger) => .ended (.error (.io cause)) { s with machine, debugger }
        | (.ok (), debugger) => .running { s with machine, debugger, phase := .asking step }
      else
        .running { s with machine }

/-- Goes on as the operator has asked. -/
def resume (s : Session) : Resume → Result
  | .step => .running { s with phase := .executing true }
  | .proceed => .running { s with phase := .executing false }
  | .quit => .ended (.ok .quit) { s with machine := { s.machine with finished := true } }

/-- One step of a session: an instruction, or the reaction to one line of the operator. -/
def step (s : Session) : Result :=
  if s.machine.finished then
    .ended (.error .alreadyFinished) s
  else
    match s.phase with
    | .executing suspending => s.advance suspending
    | .asking step =>
      match s.operator.answer step.dp s.machine.tape with
      | (.failed cause, d) => .ended (.error (.io cause)) (s.withOperator d)
      | (.again, d) => .running (s.withOperator d)
      | (.resume how, d) => (s.withOperator d).resume how

/-- A whole session. The result is `none` if `fuel` steps do not suffice. -/
def run (fuel : Nat) (s : Session) : Option (Except Fault Exit × Session) :=
  Progress.iterate step fuel s

end Session

end TapeMachine

import TapeMachine.Machine.Streams
import TapeMachine.Program.Basic
import TapeMachine.Progress
import TapeMachine.Tape

/-!
# The machine

The machine executes a program on a tape, one instruction at a time. Every instruction is
executed by `Machine.execute`; the ways of driving a machine differ only in how often they do so.

## Main definitions

* `TapeMachine.Machine` — a program with the state of its execution.
* `TapeMachine.Machine.execute` — the effect of one instruction.
* `TapeMachine.Machine.next` — the execution of the next instruction, with a report of it.
* `TapeMachine.Machine.run` — the execution of the whole program.
* `TapeMachine.Fault` — why the machine could not go on.
-/

set_option autoImplicit false

namespace TapeMachine

/-- Why the machine could not go on. -/
inductive Fault
  /-- A move would leave the tape larger than its limit. -/
  | outOfCells (refusal : OutOfCells)
  /-- The program has ended. -/
  | alreadyFinished
  /-- Reading commands, or writing, failed. -/
  | io (cause : IoError)
deriving DecidableEq, Repr

/-- The report of a fault. -/
def Fault.message : Fault → String
  | outOfCells refusal => refusal.message
  | alreadyFinished => "program is already finished"
  | io cause => cause.message

/-- How a machine is set up. -/
structure Config where
  /-- The number of output bytes that are collected before they are handed over. -/
  threshold : Nat := 8192
  /-- The number of cells that the tape may hold, if that is bounded. -/
  tapeLimit : Option Nat := none
  /-- How far the debugger shows the tape around the data pointer. -/
  radius : Nat := 2
deriving DecidableEq, Repr

/-- What one executed instruction looks like from outside. -/
structure Step where
  /-- The position of the instruction. -/
  position : Nat
  /-- The instruction. -/
  instruction : Instruction
  /-- The position of the instruction that follows. -/
  pc : Nat
  /-- The data pointer afterwards. -/
  dp : Int
  /-- The current cell afterwards. -/
  cell : UInt8
deriving DecidableEq, Repr

/-- What a machine has done so far. -/
structure Stats where
  /-- The number of instructions executed. -/
  instructions : Nat
  /-- The number of cells that the tape holds. -/
  tapeCells : Nat
  /-- The number of bytes written. -/
  outputBytes : Nat
  /-- The number of bytes read. -/
  inputBytes : Nat
deriving DecidableEq, Repr

/-- A program with the state of its execution. -/
structure Machine where
  /-- The program. -/
  program : Program
  /-- The position of the next instruction. -/
  pc : Nat
  /-- The address of the current cell. -/
  dp : Int
  /-- The tape. -/
  tape : Tape
  /-- The program's input. -/
  input : InputSource
  /-- The program's output. -/
  output : OutputSink
  /-- The number of instructions executed. -/
  executed : Nat
  /-- Whether a run or a debug session has ended in this machine. -/
  finished : Bool

namespace Machine

/-- A machine at the start of a program. -/
def start (program : Program) (config : Config) (reader : Reader) (writer : Writer) :
    Machine where
  program
  pc := 0
  dp := 0
  tape := Tape.blank config.tapeLimit
  input := { reader }
  output := { writer, threshold := config.threshold }
  executed := 0
  finished := false

/-- The current cell. -/
def cell (m : Machine) : UInt8 := m.tape.read m.dp

/-- The next instruction; there is none at the end of the program. -/
def instruction? (m : Machine) : Option Instruction := m.program.instructions[m.pc]?

/-- What the machine has done so far. -/
def stats (m : Machine) : Stats where
  instructions := m.executed
  tapeCells := m.tape.size
  outputBytes := m.output.written
  inputBytes := m.input.consumed

/-! ## Single instructions -/

/-- Counts an executed instruction and goes on behind `position`. -/
def advanceFrom (m : Machine) (position : Nat) : Machine :=
  { m with pc := position + 1, executed := m.executed + 1 }

/-- Moves the data pointer. It stays moved when the tape cannot grow to the new cell, while the
instruction does not count as executed. -/
def moveTo (m : Machine) (address : Int) : Except Fault Unit × Machine :=
  match m.tape.refusal? address with
  | some refusal => (.error (.outOfCells refusal), { m with dp := address })
  | none => (.ok (), { m with dp := address, tape := m.tape.extend address }.advanceFrom m.pc)

/-- Changes the current cell. -/
def updateCell (m : Machine) (f : UInt8 → UInt8) : Except Fault Unit × Machine :=
  match m.tape.refusal? m.dp with
  | some refusal => (.error (.outOfCells refusal), m)
  | none =>
    (.ok (), { m with tape := (m.tape.extend m.dp).modify m.dp f }.advanceFrom m.pc)

/-- Writes the current cell to the output. -/
def emit (m : Machine) : Except Fault Unit × Machine :=
  match m.output.push m.cell with
  | (.error cause, output) => (.error (.io cause), { m with output })
  | (.ok (), output) => (.ok (), { m with output }.advanceFrom m.pc)

/-- Reads a byte into the current cell. -/
def receive (m : Machine) : Except Fault Unit × Machine :=
  match m.input.readByte with
  | (byte, input) => { m with input }.updateCell fun _ => byte

/-- Goes on behind the partner of the current bracket if `jump` holds, else behind the bracket.
The partner need not be executed: it would test the same cell and not jump back. -/
def branch (m : Machine) (jump : Bool) : Except Fault Unit × Machine :=
  (.ok (), m.advanceFrom (if jump then m.program.jumps.target m.pc else m.pc))

/-- The effect of an instruction that stands at the current position. -/
def execute (m : Machine) : Instruction → Except Fault Unit × Machine
  | .right => m.moveTo (m.dp + 1)
  | .left => m.moveTo (m.dp - 1)
  | .incr n => m.updateCell (· + n)
  | .decr n => m.updateCell (· - n)
  | .output => m.emit
  | .input => m.receive
  | .loopOpen => m.branch (m.cell == 0)
  | .loopClose => m.branch (m.cell != 0)

/-- Executes the next instruction and reports it. At the end of the program, and once the
machine has finished, this fails and changes nothing. -/
def next (m : Machine) : Except Fault Step × Machine :=
  match m.finished, m.instruction? with
  | false, some instruction =>
    let position := m.pc
    match m.execute instruction with
    | (.error fault, m) => (.error fault, m)
    | (.ok (), m) => (.ok ⟨position, instruction, m.pc, m.dp, m.cell⟩, m)
  | _, _ => (.error .alreadyFinished, m)

/-! ## Whole runs -/

/-- Ends a run: hands the pending output over and marks the machine as finished. A machine whose
output fails here is not finished and can be run again. -/
def finish (m : Machine) : Except Fault Stats × Machine :=
  match m.output.flush with
  | (.error cause, output) => (.error (.io cause), { m with output })
  | (.ok (), output) =>
    let m := { m with output, finished := true }
    (.ok m.stats, m)

/-- One step of a run: the next instruction, or the end of the run behind the last one. -/
def advance (m : Machine) : Progress Machine (Except Fault Stats) :=
  match m.instruction? with
  | none =>
    match m.finish with
    | (result, m) => .ended result m
  | some instruction =>
    match m.execute instruction with
    | (.error fault, m) => .ended (.error fault) m
    | (.ok (), m) => .running m

/-- Runs the program to its end. The result is `none` if `fuel` steps do not suffice. -/
def run (fuel : Nat) (m : Machine) : Option (Except Fault Stats × Machine) :=
  if m.finished then some (.error .alreadyFinished, m) else Progress.iterate advance fuel m

end Machine

end TapeMachine

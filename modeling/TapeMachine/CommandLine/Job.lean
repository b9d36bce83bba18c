import TapeMachine.CommandLine.Record
import TapeMachine.Debug.Session
import TapeMachine.Shell

/-!
# The command between two steps

The command carries out one activity in small steps. What it holds between two steps is all that
can be seen of it from outside: what has been written to standard output and standard error, and
what is left of standard input.

## Main definitions

* `TapeMachine.Surroundings` — what the command finds when it starts.
* `TapeMachine.Activity` — what the command is doing.
* `TapeMachine.Console` — what the command has to say beside its output.
* `TapeMachine.Job` — the command between two steps.
* `TapeMachine.Job.waiting` — whether the next step needs input that is not at hand.
-/

set_option autoImplicit false

namespace TapeMachine

/-- What the command finds when it starts. -/
structure Surroundings where
  /-- What reading the file at a path gives. -/
  read : String → Except IoError (List UInt8)
  /-- Which records of the log are written. -/
  filter : LogFilter
  /-- The time stamp of log records. -/
  stamp : String
  /-- The measured time of a run, in seconds. -/
  elapsed : String

/-- What the command is doing. -/
inductive Activity
  /-- It runs a program, and reports on the run or not. -/
  | running (machine : Machine) (measured : Bool)
  /-- It runs a program under the debugger. -/
  | debugging (session : Session)
  /-- It is about to ask for a line of the shell. -/
  | prompting (shell : Shell) (stdin : Reader) (stdout : Writer)
  /-- It waits for a line of the shell. -/
  | reading (shell : Shell) (stdin : Reader) (stdout : Writer)
  /-- It runs a line of the shell. -/
  | evaluating (shell : Shell) (machine : Machine)
  /-- It has ended. -/
  | exited (code : Nat) (stdin : Reader) (stdout : Writer)

/-- What the command has to say beside its output. -/
structure Console where
  /-- What the command has found. -/
  surroundings : Surroundings
  /-- What it has written to standard error. -/
  stderr : String := ""

namespace Console

/-- Writes to standard error. -/
def report (console : Console) (text : String) : Console :=
  { console with stderr := console.stderr ++ text }

/-- Writes a record to the log, if the filter lets it through. -/
def log (console : Console) (record : LogRecord) : Console :=
  if console.surroundings.filter.enables record then
    console.report (record.line console.surroundings.stamp)
  else
    console

/-- Logs the loading of a program. -/
def logLoaded (console : Console) (source : List UInt8) (fold : Bool) (program : Program) :
    Console :=
  let console := if fold then console.log (.folded source program) else console
  console.log (.loaded program)

/-- Logs the failure to read that the next instruction of a machine is going to meet, if any. -/
def logUnread (console : Console) (machine : Machine) : Console :=
  match machine.instruction? with
  | some .input =>
    match machine.input.reader.next.1 with
    | .failed cause => console.log (.unread cause)
    | _ => console
  | _ => console

end Console

/-- The command between two steps. -/
structure Job where
  /-- What it has to say beside its output. -/
  console : Console
  /-- What it is doing. -/
  activity : Activity

namespace Job

/-- Standard output. -/
def stdout (job : Job) : Writer :=
  match job.activity with
  | .running machine _ | .evaluating _ machine => machine.output.writer
  | .debugging session => session.machine.output.writer
  | .prompting _ _ stdout | .reading _ _ stdout | .exited _ _ stdout => stdout

/-- Adds events to standard input. -/
def feed (job : Job) (events : List ReadEvent) : Job :=
  let fed (m : Machine) : Machine :=
    { m with input := { m.input with reader := m.input.reader.feed events } }
  let activity := match job.activity with
    | .running machine measured => .running (fed machine) measured
    | .evaluating shell machine => .evaluating shell (fed machine)
    | .debugging session => .debugging { session with machine := fed session.machine }
    | .prompting shell stdin stdout => .prompting shell (stdin.feed events) stdout
    | .reading shell stdin stdout => .reading shell (stdin.feed events) stdout
    | .exited code stdin stdout => .exited code (stdin.feed events) stdout
  { job with activity }

/-- Whether the next step needs input that is not at hand. -/
def waiting (job : Job) : Bool :=
  let starved (m : Machine) : Bool :=
    m.instruction? == some .input && !m.input.reader.ready
  match job.activity with
  | .running machine _ | .evaluating _ machine => starved machine
  | .debugging session =>
    match session.phase with
    | .executing _ => starved session.machine
    | .asking _ => !session.commands.lineReady
  | .reading _ stdin _ => !stdin.lineReady
  | .prompting .. | .exited .. => false

end Job

namespace Console

/-- The command once it has ended. -/
def exit (console : Console) (code : Nat) (stdin : Reader) (stdout : Writer) : Job :=
  ⟨console, .exited code stdin stdout⟩

/-- The command once it has ended with an error. -/
def fail (console : Console) (report : Report) (stdin : Reader) (stdout : Writer) : Job :=
  (console.report report.block).exit 1 stdin stdout

end Console

end TapeMachine

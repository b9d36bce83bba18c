import TapeMachine.CommandLine.Job
import TapeMachine.Text.Line

/-!
# The steps of the command

## Main definitions

* `TapeMachine.Console.stepRun`, `TapeMachine.Console.stepDebug` — one step of a run, and of a
  debug session.
* `TapeMachine.Console.stepPrompt`, `TapeMachine.Console.stepLine`,
  `TapeMachine.Console.stepLineRun` — the steps of the shell: asking for a line, taking it, and
  running it.
* `TapeMachine.Job.step` — one step of the command.
* `TapeMachine.Job.run` — the whole of it.
-/

set_option autoImplicit false

namespace TapeMachine

namespace Console

/-- The lines with the results of a measured run. -/
def measurements (elapsed : String) (stats : Stats) : String :=
  s!"Execution time: {elapsed} seconds\n" ++
    s!"Instructions executed: {stats.instructions}\n" ++
    s!"Tape cells: {stats.tapeCells}\n" ++
    s!"Output bytes: {stats.outputBytes}\n"

/-- One step of a run. -/
def stepRun (console : Console) (machine : Machine) (measured : Bool) : Job :=
  let console := console.logUnread machine
  match machine.advance with
  | .running machine => ⟨console, .running machine measured⟩
  | .ended (.error fault) m =>
    console.fail { message := fault.message } m.input.reader m.output.writer
  | .ended (.ok stats) m =>
    let console := console.log (.finished stats)
    let console :=
      if measured then console.report (measurements console.surroundings.elapsed stats)
      else console
    console.exit 0 m.input.reader m.output.writer

/-- Shows what a session has written to the operator's screen, which is standard error. -/
def showScreen (console : Console) (session : Session) : Console :=
  console.report (Text.decodeLossy session.debugger.screen.accepted.toList)

/-- Logs what the next step of a session calls for. -/
def logSession (console : Console) (session : Session) : Console :=
  match session.phase with
  | .executing _ => console.logUnread session.machine
  | .asking _ => console

/-- One step of a debug session. -/
def stepDebug (console : Console) (session : Session) : Job :=
  let console := console.logSession session
  match session.step with
  | .running session => ⟨console.showScreen session, .debugging session.clearScreen⟩
  | .ended result session =>
    let console := console.showScreen session
    let m := session.machine
    match result with
    | .error fault => console.fail { message := fault.message } m.input.reader m.output.writer
    | .ok .quit => console.exit 0 m.input.reader m.output.writer
    | .ok (.completed stats) =>
      (console.log (.finished stats)).exit 0 m.input.reader m.output.writer

/-- What the shell asks with. -/
def shellPrompt : String := "tape> "

/-- Ends the shell because its lines cannot be read or asked for. -/
def failShell (console : Console) (cause : IoError) (stdin : Reader) (stdout : Writer) : Job :=
  console.fail { message := cause.message, cause? := some cause.message } stdin stdout

/-- Asks for a line of the shell. -/
def stepPrompt (console : Console) (shell : Shell) (stdin : Reader) (stdout : Writer) : Job :=
  let console := console.log .plainLines
  match stdout.writeAll (Text.encode shellPrompt) with
  | (.error cause, stdout) => console.failShell cause stdin stdout
  | (.ok (), stdout) =>
    match stdout.flush with
    | (.error cause, stdout) => console.failShell cause stdin stdout
    | (.ok (), stdout) => ⟨console, .reading shell stdin stdout⟩

/-- Begins to run a line of the shell. A blank line is passed over. -/
def beginLine (console : Console) (shell : Shell) (line : String) (stdin : Reader)
    (stdout : Writer) : Job :=
  let source := Text.encode (Text.strip (Text.eraseBackspaces (Text.chomp line)))
  if source.isEmpty then ⟨console, .prompting shell stdin stdout⟩
  else
    match shell.machine source stdin stdout with
    | .error e => ⟨console.report s!"Error: {e.message}\n", .prompting shell stdin stdout⟩
    | .ok machine =>
      ⟨console.logLoaded source shell.fold machine.program, .evaluating shell machine⟩

/-- Takes a line of the shell. The shell ends with its input. -/
def stepLine (console : Console) (shell : Shell) (stdin : Reader) (stdout : Writer) : Job :=
  match stdin.nextLine with
  | (.error cause, stdin) => console.failShell cause stdin stdout
  | (.ok line, stdin) =>
    if line.isEmpty then console.exit 0 stdin stdout
    else
      match Text.decode? line with
      | none => console.failShell .invalidUtf8 stdin stdout
      | some line => console.beginLine shell line stdin stdout

/-- One step of the run of a line of the shell. After a run that succeeds a line feed follows its
output; output that is still pending when a run fails is lost. -/
def stepLineRun (console : Console) (shell : Shell) (machine : Machine) : Job :=
  let console := console.logUnread machine
  match machine.advance with
  | .running machine => ⟨console, .evaluating shell machine⟩
  | .ended (.error fault) m =>
    ⟨console.report s!"Error: {fault.message}\n",
      .prompting shell m.input.reader m.output.writer⟩
  | .ended (.ok stats) m =>
    let console := (console.log (.finished stats)).log (.lineFinished stats)
    match m.output.writer.writeAll [10] with
    | (.error cause, stdout) =>
      console.fail { message := cause.message } m.input.reader stdout
    | (.ok (), stdout) => ⟨console, .prompting shell m.input.reader stdout⟩

end Console

namespace Job

/-- One step of the command. Once it has ended, its exit code is the result. -/
def step : Job → Progress Job Nat
  | ⟨console, .running machine measured⟩ => .running (console.stepRun machine measured)
  | ⟨console, .debugging session⟩ => .running (console.stepDebug session)
  | ⟨console, .prompting shell stdin stdout⟩ => .running (console.stepPrompt shell stdin stdout)
  | ⟨console, .reading shell stdin stdout⟩ => .running (console.stepLine shell stdin stdout)
  | ⟨console, .evaluating shell machine⟩ => .running (console.stepLineRun shell machine)
  | ⟨console, .exited code stdin stdout⟩ => .ended code ⟨console, .exited code stdin stdout⟩

/-- Carries the command out. The result is `none` if `fuel` steps do not suffice. -/
def run (fuel : Nat) (job : Job) : Option (Nat × Job) := Progress.iterate step fuel job

end Job

end TapeMachine

import TapeMachine.CommandLine.Arguments
import TapeMachine.CommandLine.Job
import TapeMachine.Program.Layout

/-!
# The start of the command

The command reads its arguments, and the program file that they name, before its first step.
Laying a program out needs no step at all.

## Main definitions

* `TapeMachine.Console.start` — the command before its first step.
-/

set_option autoImplicit false

namespace TapeMachine.Console

/-- Writes a text to standard output and ends the command. -/
def printAndExit (console : Console) (stdin : Reader) (stdout : Writer) (text : List UInt8) :
    Job :=
  match stdout.writeAll text with
  | (.error cause, stdout) => console.fail { message := cause.message } stdin stdout
  | (.ok (), stdout) => console.exit 0 stdin stdout

/-- Begins what is to be done with a program that has been loaded. -/
def begin (console : Console) (task : FileTask) (config : Config) (program : Program)
    (stdin : Reader) (stdout : Writer) : Job :=
  let machine := Machine.start program config stdin stdout
  match task with
  | .run => ⟨console, .running machine false⟩
  | .benchmark => ⟨console, .running machine true⟩
  | .debug =>
    let debugger : Debugger :=
      { commands := { events := [] }, screen := {}, radius := config.radius }
    ⟨console, .debugging (Session.start machine debugger .shared)⟩
  | .format => console.printAndExit stdin stdout (layout program.instructions.toList ++ [10])

/-- Reads a program file and begins what is to be done with it. -/
def openFile (console : Console) (task : FileTask) (path : String) (options : Options)
    (stdin : Reader) (stdout : Writer) : Job :=
  match console.surroundings.read path with
  | .error cause =>
    console.fail (LoadError.unreadable (Text.encode path) cause.message).report stdin stdout
  | .ok source =>
    match Program.load source options.fold with
    | .error e =>
      console.fail { message := s!"could not load {path}", cause? := some e.message } stdin stdout
    | .ok program =>
      (console.logLoaded source options.fold program).begin task options.config program stdin
        stdout

/-- The version of the command. -/
def versionText : String := "tapevm 0.1.0\n"

/-- A summary of the arguments. -/
def helpText : String :=
  "Tape language virtual machine\n\n" ++
    "Usage: tapevm <run|debug|benchmark|format> [OPTIONS] <FILE>\n" ++
    "       tapevm shell [OPTIONS]\n\n" ++
    "Options:\n" ++
    "  -O, --optimize\n" ++
    "      --flush-threshold <FLUSH_THRESHOLD>\n" ++
    "      --tape-limit <TAPE_LIMIT>\n" ++
    "      --radius <RADIUS>\n"

/-- The command once its arguments, and the program file they name, have been read. -/
def start (console : Console) (arguments : List String) (stdin : Reader) (stdout : Writer) : Job :=
  match Invocation.parse arguments with
  | .error e => (console.report s!"{e.message}\n").exit 2 stdin stdout
  | .ok .version => console.printAndExit stdin stdout (Text.encode versionText)
  | .ok .help => console.printAndExit stdin stdout (Text.encode helpText)
  | .ok (.shell options) =>
    ⟨console, .prompting ⟨options.config, options.fold⟩ stdin stdout⟩
  | .ok (.file task path options) => console.openFile task path options stdin stdout

end TapeMachine.Console

import TapeMachine.CommandLine.Start
import TapeMachine.CommandLine.Step
import TapeMachine.CommandLine.Seconds

/-!
# The command line

The outer layer of the command: it reads the program file and standard input, and passes on what
the command writes. What is read and written is decided by `TapeMachine.Job.step`.

## Main definitions

* `TapeMachine.CommandLine.drive` — the steps of a command, with its streams.
* `main` — the command.
-/

set_option autoImplicit false

namespace TapeMachine.CommandLine

/-- The cause of a failed system call. The codes of errors may be given with either sign. -/
def causeOf : IO.Error → IoError
  | .noFileOrDirectory .. => .notFound
  | .inappropriateType _ code _ =>
    if code = 20 ∨ code + 20 = 0 then .notDirectory else .isDirectory
  | .resourceExhausted .. => .noSpace
  | _ => .brokenSource

/-- What reading the program file gives. -/
def readProgram (path : String) : IO (Except IoError (List UInt8)) := do
  match ← (IO.FS.readBinFile path).toBaseIO with
  | .ok contents => return .ok contents.toList
  | .error e => return .error (causeOf e)

/-- The path of the program file that arguments name. -/
def programPath? (arguments : List String) : Option String :=
  match Invocation.parse arguments with
  | .ok (.file _ path _) => some path
  | _ => none

/-- What the next read of standard input gives. -/
def readEvent (stdin : IO.FS.Stream) : IO ReadEvent := do
  match ← (stdin.read 1).toBaseIO with
  | .ok bytes => return bytes.toList.head?.elim .eof .byte
  | .error e => return .failed (causeOf e)

/-- How much has been written to standard output and to standard error, in bytes. -/
def volume (job : Job) : Nat × Nat :=
  (job.stdout.accepted.size, job.console.stderr.utf8ByteSize)

/-- Passes on what has been written beyond a volume. -/
def passOn (stdout stderr : IO.FS.Stream) (before : Nat × Nat) (job : Job) : IO Unit := do
  let (written, shown) := volume job
  if before.1 < written then
    stdout.write ⟨job.stdout.accepted.extract before.1 written⟩
    stdout.flush
  if before.2 < shown then
    stderr.write (job.console.stderr.toUTF8.extract before.2 shown)
    stderr.flush

/-- The time that has passed since the start. -/
def timed (job : Job) (start : Nat) : IO Job := do
  let time := seconds (((← IO.monoNanosNow) - start) / 1000)
  let surroundings := { job.console.surroundings with stamp := time, elapsed := time }
  return { job with console := { job.console with surroundings } }

/-- Carries out the steps of a command and gives its exit code. -/
partial def drive (stdin stdout stderr : IO.FS.Stream) (start : Nat) (job : Job) : IO UInt32 := do
  if job.waiting then
    drive stdin stdout stderr start (job.feed [← readEvent stdin])
  else
    let before := volume job
    match (← timed job start).step with
    | .running job =>
      passOn stdout stderr before job
      drive stdin stdout stderr start job
    | .ended code _ => return code.toUInt32

/-- Carries out the command that some arguments ask for. -/
def command (arguments : List String) : IO UInt32 := do
  let stdin ← IO.getStdin
  let stdout ← IO.getStdout
  let stderr ← IO.getStderr
  let start ← IO.monoNanosNow
  let contents ←
    match programPath? arguments with
    | some path => readProgram path
    | none => pure (.error .notFound)
  let surroundings : Surroundings := {
    read := fun _ => contents
    filter := LogFilter.ofVariable (← IO.getEnv "RUST_LOG")
    stamp := seconds 0
    elapsed := seconds 0 }
  let job := Console.start { surroundings } arguments { events := [] } {}
  try
    passOn stdout stderr (0, 0) job
    drive stdin stdout stderr start job
  catch e =>
    stderr.putStr { message := (causeOf e).message : Report }.block
    return 1

end TapeMachine.CommandLine

/-- The command. -/
def main (arguments : List String) : IO UInt32 := TapeMachine.CommandLine.command arguments

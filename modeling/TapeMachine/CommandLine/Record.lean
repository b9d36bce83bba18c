import TapeMachine.CommandLine.Log
import TapeMachine.Machine.Basic

/-!
# What the command logs

## Main definitions

* `TapeMachine.LogRecord.folded`, `TapeMachine.LogRecord.loaded` — a program has been prepared.
* `TapeMachine.LogRecord.finished` — a program has been executed.
* `TapeMachine.LogRecord.unread` — input could not be read.
* `TapeMachine.LogRecord.rawMode` — the terminal has been switched to raw mode.
* `TapeMachine.LogRecord.plainLines`, `TapeMachine.LogRecord.lineFinished` — the shell is about
  to read a line, and has executed one.
-/

set_option autoImplicit false

namespace TapeMachine.LogRecord

/-- The record of a program that has been folded. -/
def folded (source : List UInt8) (program : Program) : LogRecord where
  level := .debug
  target := "tapevm::bytecode"
  message := "folded increment/decrement runs"
  fields := [("before", toString (symbols source).length), ("after", toString program.size)]

/-- The record of a program that has been loaded. -/
def loaded (program : Program) : LogRecord where
  level := .info
  target := "tapevm::bytecode"
  message := "program loaded"
  fields :=
    [("instructions", toString program.size), ("discarded", toString program.discarded),
      ("loops", toString program.jumps.pairs)]

/-- The record of a program that has been executed. -/
def finished (stats : Stats) : LogRecord where
  level := .info
  target := "tapevm::vm"
  message := "program finished"
  fields :=
    [("instructions", toString stats.instructions), ("tape_cells", toString stats.tapeCells),
      ("output_bytes", toString stats.outputBytes)]

/-- The record of input that could not be read. -/
def unread (cause : IoError) : LogRecord where
  level := .warn
  target := "tapevm::io"
  message := "input read failed, substituting 0"
  fields := [("error", cause.message)]

/-- The record of a terminal that has been switched to raw mode. -/
def rawMode : LogRecord where
  level := .debug
  target := "tapevm::terminal"
  message := "stdin switched to raw mode"

/-- The record of a shell that reads plain lines. -/
def plainLines : LogRecord where
  level := .debug
  target := "rustyline"
  message := "unsupported terminal"

/-- The record of a line of the shell that has been executed. -/
def lineFinished (stats : Stats) : LogRecord where
  level := .debug
  target := "tapevm::shell"
  message := "line finished"
  fields := [("instructions", toString stats.instructions)]

end TapeMachine.LogRecord

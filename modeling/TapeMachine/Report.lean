import TapeMachine.Machine.Basic
import TapeMachine.Text.Utf8

/-!
# Error reports

## Main definitions

* `TapeMachine.Report` — a message and, possibly, what caused it.
* `TapeMachine.Report.chain`, `TapeMachine.Report.block` — a report in one line, and as the last
  words of the command.
* `TapeMachine.LoadError` — why a program could not be loaded.
* `TapeMachine.RunError` — why a program could not be loaded or run.
-/

set_option autoImplicit false

namespace TapeMachine

/-- A message and, possibly, what caused it. -/
structure Report where
  /-- The message. -/
  message : String
  /-- The message of the cause. -/
  cause? : Option String := none
deriving DecidableEq, Repr

namespace Report

/-- A report in one line: the cause follows the message. -/
def chain (r : Report) : String :=
  match r.cause? with
  | none => r.message
  | some cause => s!"{r.message}: {cause}"

/-- A report as the last words of the command: the cause stands in a paragraph of its own. -/
def block (r : Report) : String :=
  match r.cause? with
  | none => s!"Error: {r.message}\n"
  | some cause => s!"Error: {r.message}\n\nCaused by:\n    {cause}\n"

end Report

/-- Why a program could not be loaded. -/
inductive LoadError
  /-- Its file could not be read. -/
  | unreadable (path : List UInt8) (reason : String)
  /-- Its brackets do not match. -/
  | brackets (error : BracketError)
deriving DecidableEq, Repr

/-- The report of a load error. A path that is not UTF-8 is shown with replacement
characters. -/
def LoadError.report : LoadError → Report
  | unreadable path reason =>
    { message := s!"could not open file {Text.decodeLossy path}", cause? := some reason }
  | brackets error => { message := error.message }

/-- Why a program text could not be loaded or run. -/
inductive RunError
  /-- Its brackets do not match. -/
  | load (error : BracketError)
  /-- The machine could not go on. -/
  | exec (fault : Fault)
deriving DecidableEq, Repr

/-- The report of a run error. -/
def RunError.message : RunError → String
  | load error => error.message
  | exec fault => fault.message

end TapeMachine

import TapeMachine.Stream.Failure
import TapeMachine.Text.Blank
import TapeMachine.Text.Utf8

/-!
# Operator commands

## Main definitions

* `TapeMachine.Command` — what the operator of the debugger can ask for.
* `TapeMachine.Command.ofText` — the command that a text stands for.
* `TapeMachine.Command.ofLine?` — the command that a line of input stands for.
-/

set_option autoImplicit false

namespace TapeMachine

/-- What the operator of the debugger can ask for. -/
inductive Command
  /-- Execute one more instruction. -/
  | step
  /-- Execute the rest of the program. -/
  | proceed
  /-- Show the tape around the data pointer. -/
  | print
  /-- End the session. -/
  | quit
  /-- Something that is not known. -/
  | unknown (text : String)
deriving DecidableEq, Repr

/-- The command that a text stands for. Blanks around it do not matter, and a blank text is a
step. -/
def Command.ofText (text : String) : Command :=
  match Text.strip text with
  | "" | "s" | "step" => step
  | "c" | "continue" => proceed
  | "p" | "print" => print
  | "q" | "quit" => quit
  | other => unknown other

/-- The command that a line of input stands for. The input has ended where not even a line feed
is left, and there is no command; a line that is not UTF-8 is a failure. -/
def Command.ofLine? (line : List UInt8) : Except IoError (Option Command) :=
  if line.isEmpty then .ok none
  else
    match Text.decode? line with
    | some text => .ok (some (ofText text))
    | none => .error .invalidUtf8

end TapeMachine

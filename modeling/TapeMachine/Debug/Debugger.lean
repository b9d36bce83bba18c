import TapeMachine.Debug.Command
import TapeMachine.Machine.Basic

/-!
# The debugger

After an executed instruction the debugger reports it and asks the operator, line by line, until
an answer tells how to go on. It sees the tape and never changes it.

## Main definitions

* `TapeMachine.Debugger` — the operator's commands and the screen.
* `TapeMachine.Debugger.announce` — the report of an executed instruction, and a prompt.
* `TapeMachine.Debugger.answer` — the reaction to one line of the operator.
* `TapeMachine.Debugger.suspend` — a whole suspension: the report, and lines until one tells how
  to go on.

## Main results

* `TapeMachine.Debugger.length_commands_answer_lt` — an answer that leads to another prompt has
  used up commands, so a suspension ends.
-/

set_option autoImplicit false

namespace TapeMachine

/-- How execution goes on after a suspension. -/
inductive Resume
  /-- With one instruction. -/
  | step
  /-- With the rest of the program. -/
  | proceed
  /-- Not at all. -/
  | quit
deriving DecidableEq, Repr

/-- The reaction to one line of the operator. -/
inductive Reply
  /-- Execution goes on. -/
  | resume (how : Resume)
  /-- The operator is asked again. -/
  | again
  /-- Reading the line, or writing to the screen, failed. -/
  | failed (cause : IoError)
deriving DecidableEq, Repr

/-- A text with blanks in front of it up to a width. -/
def padLeft (width : Nat) (text : String) : String :=
  "".pushn ' ' (width - text.length) ++ text

/-- The report of an executed instruction. -/
def Step.report (step : Step) : String :=
  s!"Executed '{step.instruction.text}' at position {step.position}\n" ++
    s!"Next PC: {step.pc}\n" ++
    s!"Data pointer: {step.dp}\n" ++
    s!"Current cell value: {step.cell}\n"

/-- A cell as a line of text. The current cell is marked. -/
def cellLine (dp : Int) (address : Int) (value : UInt8) : String :=
  let marker := if address = dp then ">" else " "
  s!"{marker} [{padLeft 4 (toString address)}] {padLeft 3 (toString value)}\n"

/-- The tape around the current cell as lines of text. -/
def windowText (tape : Tape) (dp : Int) (radius : Nat) : String :=
  String.join ((tape.window dp radius).map fun (address, value) => cellLine dp address value)

/-- The question put to the operator. -/
def promptText : String := "(s)tep, (c)ontinue, (p)rint, (q)uit > "

/-- The note on a command that is not known. -/
def unknownText (command : String) : String := s!"Unknown command '{command}', stepping\n"

/-- The operator's side of a debug session. -/
structure Debugger where
  /-- Where the operator's lines come from. -/
  commands : Reader
  /-- Where reports and questions go. -/
  screen : Writer
  /-- How far the tape is shown around the current cell. -/
  radius : Nat

namespace Debugger

/-- Writes a text to the screen. -/
def display (d : Debugger) (text : String) : Except IoError Unit × Debugger :=
  let written := d.screen.writeAll (Text.encode text)
  (written.1, { d with screen := written.2 })

/-- Puts the question to the operator. -/
def prompt (d : Debugger) : Except IoError Unit × Debugger :=
  match d.display promptText with
  | (.error cause, d) => (.error cause, d)
  | (.ok (), d) =>
    let flushed := d.screen.flush
    (flushed.1, { d with screen := flushed.2 })

/-- Reports an executed instruction and puts the question. -/
def announce (d : Debugger) (step : Step) : Except IoError Unit × Debugger :=
  match d.display step.report with
  | (.error cause, d) => (.error cause, d)
  | (.ok (), d) => d.prompt

/-- Takes the next command; there is none when the operator's lines have ended. -/
def nextCommand (d : Debugger) : Except IoError (Option Command) × Debugger :=
  let line := d.commands.nextLine
  (line.1.bind Command.ofLine?, { d with commands := line.2 })

/-- Writes a text to the screen, after which execution goes on. -/
def displayThen (d : Debugger) (text : String) (how : Resume) : Reply × Debugger :=
  match d.display text with
  | (.error cause, d) => (.failed cause, d)
  | (.ok (), d) => (.resume how, d)

/-- Puts the question once more. -/
def promptAgain (d : Debugger) : Reply × Debugger :=
  match d.prompt with
  | (.error cause, d) => (.failed cause, d)
  | (.ok (), d) => (.again, d)

/-- Shows the tape and puts the question once more. -/
def showWindow (d : Debugger) (dp : Int) (tape : Tape) : Reply × Debugger :=
  match d.display (windowText tape dp d.radius) with
  | (.error cause, d) => (.failed cause, d)
  | (.ok (), d) => d.promptAgain

/-- The reaction to a command. When there is none nobody is left to ask, and the rest of the
program is executed. -/
def react (d : Debugger) (dp : Int) (tape : Tape) : Option Command → Reply × Debugger
  | none => d.displayThen "\n" .proceed
  | some .step => (.resume .step, d)
  | some .proceed => (.resume .proceed, d)
  | some .quit => (.resume .quit, d)
  | some .print => d.showWindow dp tape
  | some (.unknown command) => d.displayThen (unknownText command) .step

/-- Takes one line of the operator and reacts to it. -/
def answer (d : Debugger) (dp : Int) (tape : Tape) : Reply × Debugger :=
  match d.nextCommand with
  | (.error cause, d) => (.failed cause, d)
  | (.ok command?, d) => d.react dp tape command?

/-! ## Suspensions end -/

theorem commands_display (d : Debugger) (text : String) :
    (d.display text).2.commands = d.commands := rfl

theorem commands_prompt (d : Debugger) : d.prompt.2.commands = d.commands := by
  unfold prompt
  split
  · rename_i h
    exact (congrArg (fun shown => shown.2.commands) h).symm
  · rename_i h
    exact (congrArg (fun shown => shown.2.commands) h).symm

theorem commands_displayThen (d : Debugger) (text : String) (how : Resume) :
    (d.displayThen text how).2.commands = d.commands := by
  have hd := commands_display d text
  unfold displayThen
  generalize d.display text = shown at hd ⊢
  obtain ⟨_ | _, d'⟩ := shown <;> exact hd

theorem displayThen_ne_again (d : Debugger) (text : String) (how : Resume) :
    (d.displayThen text how).1 ≠ .again := by
  unfold displayThen
  split <;> simp

theorem commands_promptAgain (d : Debugger) : d.promptAgain.2.commands = d.commands := by
  have hp := commands_prompt d
  unfold promptAgain
  generalize d.prompt = prompted at hp ⊢
  obtain ⟨_ | _, d'⟩ := prompted <;> exact hp

theorem commands_showWindow (d : Debugger) (dp : Int) (tape : Tape) :
    (d.showWindow dp tape).2.commands = d.commands := by
  have hd := commands_display d (windowText tape dp d.radius)
  unfold showWindow
  split
  · rename_i h
    rw [h] at hd
    exact hd
  · rename_i h
    rw [h] at hd
    exact (commands_promptAgain _).trans hd

/-- Reactions take no commands. -/
theorem commands_react (d : Debugger) (dp : Int) (tape : Tape) (command? : Option Command) :
    (d.react dp tape command?).2.commands = d.commands := by
  unfold react
  split
  · exact commands_displayThen ..
  · rfl
  · rfl
  · rfl
  · exact commands_showWindow ..
  · exact commands_displayThen ..

/-- A command has used up some of the operator's lines. -/
theorem length_commands_nextCommand_lt (d : Debugger) (command : Command)
    (h : d.nextCommand.1 = .ok (some command)) :
    d.nextCommand.2.commands.events.length < d.commands.events.length := by
  simp only [nextCommand] at h ⊢
  match hline : d.commands.nextLine.1 with
  | .error cause => simp [hline, Except.bind] at h
  | .ok [] => simp [hline, Except.bind, Command.ofLine?] at h
  | .ok (b :: line) => exact d.commands.length_nextLine_lt hline (List.cons_ne_nil b line)

/-- An answer that leads to another prompt has used up commands. -/
theorem length_commands_answer_lt (d : Debugger) (dp : Int) (tape : Tape)
    (h : (d.answer dp tape).1 = .again) :
    (d.answer dp tape).2.commands.events.length < d.commands.events.length := by
  have hlt := d.length_commands_nextCommand_lt
  unfold answer at h ⊢
  generalize d.nextCommand = taken at h hlt ⊢
  obtain ⟨_ | _ | command, d'⟩ := taken
  · simp at h
  · exact absurd h (displayThen_ne_again _ _ _)
  · simp only [commands_react]
    exact hlt command rfl

/-- Takes lines of the operator until one tells how to go on. -/
def ask (d : Debugger) (dp : Int) (tape : Tape) : Except IoError Resume × Debugger :=
  match _h : d.answer dp tape with
  | (.resume how, d') => (.ok how, d')
  | (.failed cause, d') => (.error cause, d')
  | (.again, d') => d'.ask dp tape
termination_by d.commands.events.length
decreasing_by
  have := d.length_commands_answer_lt dp tape
  rw [_h] at this
  exact this rfl

/-- A whole suspension: the report of the executed instruction, and lines of the operator until
one tells how to go on. -/
def suspend (d : Debugger) (step : Step) (tape : Tape) : Except IoError Resume × Debugger :=
  match d.announce step with
  | (.error cause, d) => (.error cause, d)
  | (.ok (), d) => d.ask step.dp tape

end Debugger

end TapeMachine

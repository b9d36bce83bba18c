import Mathlib.Tactic
import TapeMachine.Debug.Debugger
import TapeMachine.Proofs.Stream.Delivery
import TapeMachine.Proofs.Stream.Lines

/-!
# Operators that see a session through

An operator who never asks to quit, whose lines can be read and whose screen can be written, lets a
debug session go on after every suspension.

## Main definitions

* `TapeMachine.Reader.NeverQuits` — the lines of an operator who never asks to quit.
* `TapeMachine.Debugger.Obliging` — such an operator, with a screen that never fails.
* `TapeMachine.Debugger.Shows` — a screen that never fails has shown a text more.

## Main results

* `TapeMachine.Debugger.exists_announce` — the report of an instruction succeeds.
* `TapeMachine.Debugger.exists_answer` — a command that can be read is answered.
* `TapeMachine.Debugger.Obliging.exists_reply` — an answer leads on.
-/

set_option autoImplicit false

namespace TapeMachine

/-- The command on the next line of the operator; there is none when the lines have ended. -/
def Reader.nextCommand (r : Reader) : Except IoError (Option Command) :=
  r.nextLine.1.bind Command.ofLine?

/-- The lines of an operator who never asks to quit: all of them can be read as commands other than
that, up to the one that asks for the rest of the program, or up to their end. -/
inductive Reader.NeverQuits : Reader → Prop
  | ended {r : Reader} (h : r.nextCommand = .ok none) : NeverQuits r
  | proceed {r : Reader} (h : r.nextCommand = .ok (some .proceed)) : NeverQuits r
  | more {r : Reader} {command : Command} (h : r.nextCommand = .ok (some command))
    (hquit : command ≠ .quit) (rest : NeverQuits r.nextLine.2) : NeverQuits r

/-- An operator who prints the tape and then asks for the rest of the program. -/
example : (Reader.ofBytes [112, 10, 99, 10]).NeverQuits :=
  .more (show Reader.nextCommand _ = .ok (some .print) from rfl) (by decide) (.proceed rfl)

/-- How execution goes on after a command. After a print it does not: the question is put again. An
unknown command acts as a step. -/
def Command.answer? : Command → Option Resume
  | .step | .unknown _ => some .step
  | .proceed => some .proceed
  | .quit => some .quit
  | .print => none

namespace Debugger

variable {d : Debugger}

/-! ## Screens that never fail -/

/-- What a debugger has shown to the operator. -/
def shown (d : Debugger) : List UInt8 := d.screen.accepted.toList

/-- A debugger `d` becomes `d'` by showing a text more, on a screen that never fails. -/
structure Shows (d : Debugger) (text : String) (d' : Debugger) : Prop where
  screen : d'.screen.Reliable
  shown : d'.shown = d.shown ++ Text.encode text
  commands : d'.commands = d.commands
  radius : d'.radius = d.radius

/-- Showing nothing changes nothing. -/
lemma shows_empty (h : d.screen.Reliable) : d.Shows "" d :=
  ⟨h, (List.append_nil _).symm, rfl, rfl⟩

/-- Two texts that are shown one after another are one text. -/
lemma Shows.append {d₁ d₂ : Debugger} {text₁ text₂ : String} (h₁ : d.Shows text₁ d₁)
    (h₂ : d₁.Shows text₂ d₂) : d.Shows (text₁ ++ text₂) d₂ where
  screen := h₂.screen
  shown := by rw [h₂.shown, h₁.shown, Text.encode_append, List.append_assoc]
  commands := h₂.commands.trans h₁.commands
  radius := h₂.radius.trans h₁.radius

/-- What is shown and what is still to be shown make up one text. -/
lemma Shows.shown_append {d' : Debugger} {text rest : String} {all : List UInt8}
    (h : d.Shows text d') (hall : d.shown ++ Text.encode (text ++ rest) = all) :
    d'.shown ++ Text.encode rest = all := by
  rw [h.shown, List.append_assoc, ← Text.encode_append]
  exact hall

/-- A text can be written to a screen that never fails. -/
lemma exists_display (h : d.screen.Reliable) (text : String) :
    ∃ d', d.display text = (.ok (), d') ∧ d.Shows text d' := by
  obtain ⟨screen, hwrite, hscreen⟩ := h.exists_writeAll (Text.encode text)
  exact ⟨{ d with screen }, by simp only [display, hwrite], hscreen,
    Writer.accepted_of_writeAll hwrite, rfl, rfl⟩

/-- The question can be put on a screen that never fails. -/
lemma exists_prompt (h : d.screen.Reliable) :
    ∃ d', d.prompt = (.ok (), d') ∧ d.Shows promptText d' := by
  obtain ⟨d₁, hdisplay, h₁⟩ := exists_display h promptText
  obtain ⟨screen, hflush, hscreen⟩ := h₁.screen.exists_flush
  have haccepted : screen.accepted = d₁.screen.accepted := by
    rw [← Writer.accepted_flush d₁.screen, hflush]
  have hshown : ({ d₁ with screen } : Debugger).shown = d₁.shown :=
    congrArg Array.toList haccepted
  exact ⟨{ d₁ with screen }, by simp only [prompt, hdisplay, hflush], hscreen,
    hshown.trans h₁.shown, h₁.commands, h₁.radius⟩

/-- An instruction can be reported on a screen that never fails. -/
lemma exists_announce (h : d.screen.Reliable) (step : Step) :
    ∃ d', d.announce step = (.ok (), d') ∧ d.Shows (step.report ++ promptText) d' := by
  obtain ⟨d₁, hdisplay, h₁⟩ := exists_display h step.report
  obtain ⟨d₂, hprompt, h₂⟩ := exists_prompt h₁.screen
  exact ⟨d₂, by simp only [announce, hdisplay, hprompt], h₁.append h₂⟩

/-! ## Reactions -/

/-- The reaction to a command, or to the end of the commands, if the screen does not fail. -/
def reply : Option Command → Reply
  | none => .resume .proceed
  | some command =>
    match command.answer? with
    | none => .again
    | some how => .resume how

/-- What a debugger with a given radius shows in reaction to a command. -/
def echo (radius : Nat) (dp : Int) (tape : Tape) : Option Command → String
  | none => "\n"
  | some .print => windowText tape dp radius ++ promptText
  | some (.unknown text) => unknownText text
  | some _ => ""

/-- **A debugger can react to every command** on a screen that never fails. -/
lemma exists_react (h : d.screen.Reliable) (dp : Int) (tape : Tape) (command? : Option Command) :
    ∃ d', d.react dp tape command? = (reply command?, d') ∧
      d.Shows (echo d.radius dp tape command?) d' := by
  have hdisplayThen : ∀ text how, ∃ d', d.displayThen text how = (.resume how, d') ∧
      d.Shows text d' := by
    intro text how
    obtain ⟨d', hdisplay, h'⟩ := exists_display h text
    exact ⟨d', by simp only [displayThen, hdisplay], h'⟩
  match command? with
  | none => exact hdisplayThen "\n" .proceed
  | some .step | some .proceed | some .quit => exact ⟨d, rfl, shows_empty h⟩
  | some (.unknown text) => exact hdisplayThen (unknownText text) .step
  | some .print =>
    obtain ⟨d₁, hdisplay, h₁⟩ := exists_display h (windowText tape dp d.radius)
    obtain ⟨d₂, hprompt, h₂⟩ := exists_prompt h₁.screen
    exact ⟨d₂, by simp only [react, showWindow, promptAgain, hdisplay, hprompt, reply,
      Command.answer?], h₁.append h₂⟩

/-- A debugger takes a command that it can read, and reacts to it. -/
lemma exists_answer (h : d.screen.Reliable) {command? : Option Command}
    (hnext : d.commands.nextCommand = .ok command?) (dp : Int) (tape : Tape) :
    ∃ d', d.answer dp tape = (reply command?, d') ∧
      Shows { d with commands := d.commands.nextLine.2 } (echo d.radius dp tape command?) d' := by
  have htaken : d.nextCommand =
      (d.commands.nextCommand, { d with commands := d.commands.nextLine.2 }) := rfl
  simp only [answer, htaken, hnext]
  exact exists_react (d := { d with commands := d.commands.nextLine.2 }) h dp tape command?

/-! ## Operators who never quit -/

/-- A debugger that lets a session go on: its operator never asks to quit, and its screen never
fails. -/
structure Obliging (d : Debugger) : Prop where
  commands : d.commands.NeverQuits
  screen : d.screen.Reliable

/-- **An answer leads on**: to the rest of the program, to one more instruction, or to another
question, and then the debugger lets the session go on from there. -/
theorem Obliging.exists_reply (h : d.Obliging) (dp : Int) (tape : Tape) :
    ∃ reply d', d.answer dp tape = (reply, d') ∧ d'.screen.Reliable ∧
      (reply = .resume .proceed ∨
        (reply = .resume .step ∨ reply = .again) ∧ d'.commands.NeverQuits) := by
  cases h.commands with
  | ended hnext | proceed hnext =>
    obtain ⟨d', hanswer, hd⟩ := exists_answer h.screen hnext dp tape
    exact ⟨_, d', hanswer, hd.screen, Or.inl rfl⟩
  | @more _ command hnext hquit rest =>
    obtain ⟨d', hanswer, hd⟩ := exists_answer h.screen hnext dp tape
    have hrest : d'.commands.NeverQuits := hd.commands ▸ rest
    refine ⟨_, d', hanswer, hd.screen, ?_⟩
    cases command with
    | step | unknown => exact Or.inr ⟨Or.inl rfl, hrest⟩
    | print => exact Or.inr ⟨Or.inr rfl, hrest⟩
    | proceed => exact Or.inl rfl
    | quit => exact absurd rfl hquit

end Debugger

end TapeMachine

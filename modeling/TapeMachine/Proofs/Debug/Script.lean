import Mathlib.Tactic
import TapeMachine.Proofs.Debug.Operator
import TapeMachine.Proofs.Machine.Walk

/-!
# Scripts of an operator

The lines of an operator can be written down in advance, as a script of commands. Together with the
machine the script decides what the operator will see: the reports are those of single steps, and
the tape is shown as the single steps leave it.

## Main definitions

* `TapeMachine.Reader.Says` — the lines of a reader are the commands of a script.
* `TapeMachine.Command.script` — the commands on the lines of a text.
* `TapeMachine.Command.answers` — how a script asks to go on, time after time.
* `TapeMachine.Machine.transcript` — what the operator of a script sees.

## Main results

* `TapeMachine.Reader.Delivers.says_script` — a reader that delivers a text says its script.
-/

set_option autoImplicit false

namespace TapeMachine

/-! ## What a reader says -/

/-- The lines of a reader are the commands of a script, and there are no more. -/
inductive Reader.Says : Reader → List Command → Prop
  | ended {r : Reader} (h : r.nextCommand = .ok none) : Says r []
  | more {r : Reader} {command : Command} {script : List Command}
    (h : r.nextCommand = .ok (some command)) (rest : Says r.nextLine.2 script) :
    Says r (command :: script)

namespace Command

/-- The commands on the lines of a text. -/
def script (text : String) : List Command :=
  (Text.linesOf '\n' text.toList).map fun line => ofText (String.ofList line)

/-- How a script asks to go on, time after time: its prints are left out, and what is not known is
a step. -/
def answers (script : List Command) : List Resume := script.filterMap answer?

/-- An operator who looks at the tape and mistypes a step asks for a step, and then for the rest. -/
example : answers [.print, .unknown "stepp", .print, .proceed] = [.step, .proceed] := rfl

end Command

namespace Reader

variable {r : Reader} {script : List Command}

/-- The next command of a reader is the first one of the script. -/
lemma Says.nextCommand (h : r.Says script) : r.nextCommand = .ok script.head? := by
  cases h with
  | ended h => exact h
  | more h _ => exact h

/-- Behind a command a reader says the rest of the script. -/
lemma Says.rest {command : Command} (h : r.Says (command :: script)) : r.nextLine.2.Says script := by
  cases h with
  | more _ rest => exact rest

/-- **A reader that delivers a text says its script.**

**Proof sketch.** Induction on the lines of the text, which are the lines that the reader takes. No
line is empty, so none is taken for the end of the input. -/
theorem Delivers.says_script {text : String} (h : r.Delivers (Text.encode text)) :
    r.Says (Command.script text) := by
  have hlines : Text.linesOf 10 (Text.encode text) =
      (Text.linesOf '\n' text.toList).map fun line => Text.encode (String.ofList line) := by
    simp only [Text.encode_ofList]
    rw [← Text.linesOf_flatMap_encode, ← Text.encode_ofList, String.ofList_toList]
  have hne : ∀ line ∈ Text.linesOf '\n' text.toList, line ≠ [] := fun line =>
    Text.ne_nil_of_mem_linesOf
  unfold Command.script
  generalize Text.linesOf '\n' text.toList = lines at hlines hne
  generalize Text.encode text = bytes at h hlines
  induction lines generalizing r bytes with
  | nil =>
    obtain ⟨r', bytes', hnext, -⟩ := h.exists_nextLine
    rw [hlines] at hnext
    refine .ended ?_
    rw [Reader.nextCommand, hnext]
    rfl
  | cons line lines ih =>
    obtain ⟨r', bytes', hnext, hdelivers, hrest⟩ := h.exists_nextLine
    rw [hlines] at hnext hrest
    obtain ⟨hline, hlines'⟩ := List.forall_mem_cons.mp hne
    have hbytes : Text.encode (String.ofList line) ≠ [] := by
      obtain ⟨c, cs, rfl⟩ := List.exists_cons_of_ne_nil hline
      rw [Text.encode_ofList, List.flatMap_cons]
      exact List.append_ne_nil_of_left_ne_nil String.utf8EncodeChar_ne_nil _
    refine .more ?_ ?_
    · rw [Reader.nextCommand, hnext]
      simp [Except.bind, Command.ofLine?, hbytes, Text.decode?_encode]
    · rw [hnext]
      exact ih hlines' bytes' hdelivers hrest

end Reader

/-! ## What the operator sees -/

namespace Machine

/-- What the operator sees of the next instruction, if it succeeds: its report, the question, and
what becomes of the question. -/
def reporting (m : Machine) (replies : Machine → String) : String :=
  match m.next with
  | (.ok report, m') => report.report ++ promptText ++ replies m'
  | (.error _, _) => ""

/-- What the operator of a script sees once the question has been put. After a print it is put
again, a step leads to the next instruction, and all else ends the dialogue. -/
def dialogue (radius : Nat) : List Command → Machine → String
  | [], m => Debugger.echo radius m.dp m.tape none
  | command :: script, m =>
    Debugger.echo radius m.dp m.tape (some command) ++
      match command.answer? with
      | none => dialogue radius script m
      | some .step => m.reporting (dialogue radius script)
      | some .proceed | some .quit => ""

/-- What the operator of a script sees from the start of a session. -/
def transcript (m : Machine) (radius : Nat) (script : List Command) : String :=
  m.reporting (dialogue radius script)

variable {m m' : Machine} {report : Step}

lemma reporting_of_next (h : m.next = (.ok report, m')) (replies : Machine → String) :
    m.reporting replies = report.report ++ promptText ++ replies m' := by
  simp only [reporting, h]

/-- Where a run ends there is nothing to report. -/
lemma reporting_of_ended (hf : m.finished = false) {r : Except Fault Stats}
    (h : m.advance = .ended r m') (replies : Machine → String) : m.reporting replies = "" := by
  unfold reporting
  split
  · rename_i hnext
    rw [(advance_eq_running_iff_next hf).mpr ⟨_, hnext⟩] at h
    cases h
  · rfl

end Machine

end TapeMachine

import Mathlib.Tactic
import TapeMachine.Proofs.Debug.Reachable
import TapeMachine.Proofs.Stream.Attempts

/-!
# Instructions that fail

An instruction has some of its effects before it can fail, and these stay. A move that is refused
has moved the data pointer; an output that fails has collected and counted its byte, and may even
have delivered it. All else is as it was, and no other instruction fails on a machine that was
driven from the start of a program.

## Main definitions

* `TapeMachine.Machine.KeptByFailure` — what every failure leaves as it was.
* `TapeMachine.Machine.MoveRefused`, `TapeMachine.Machine.OutputFailed` — what a move that is
  refused, and an output that fails, do to a machine.

## Main results

* `TapeMachine.OutputSink.cases_of_flush_error` — the two ways in which handing the pending bytes
  over fails.
* `TapeMachine.Machine.moveRefused_of_error`, `TapeMachine.Machine.outputFailed_of_error` — the
  failure of one instruction.
* `TapeMachine.Calls.failed_instruction_frame` — what a failure leaves of a reachable machine.
-/

set_option autoImplicit false

namespace TapeMachine

/-! ## Outputs -/

namespace OutputSink

variable {sink sink' : OutputSink} {cause : IoError}

/-- **Handing the pending bytes over fails in two ways.** If the writer does not take all of them
they are still pending, and if it does not pass them on none is pending any more. -/
lemma cases_of_flush_error (h : sink.flush = (.error cause, sink')) :
    (sink.writer.writeAll sink.pending.toList = (.error cause, sink'.writer) ∧
        sink' = { sink with writer := sink'.writer }) ∨
      ∃ w, sink.writer.writeAll sink.pending.toList = (.ok (), w) ∧
        w.flush = (.error cause, sink'.writer) ∧
        sink' = { sink with writer := sink'.writer, pending := #[] } := by
  unfold flush at h
  split at h
  · rename_i hwrite
    cases h
    exact Or.inl ⟨hwrite, rfl⟩
  · rename_i w hwrite
    rcases hflush : w.flush with ⟨r, w'⟩
    rw [hflush] at h
    cases h
    exact Or.inr ⟨w, hwrite, hflush, rfl⟩

/-- A byte that cannot be written has been collected, and handing the pending bytes over has
failed. -/
lemma flush_of_push_error {byte : UInt8} (h : sink.push byte = (.error cause, sink')) :
    (sink.collect byte).flush = (.error cause, sink') := by
  rw [push_eq] at h
  split at h
  · exact h
  · cases h

end OutputSink

namespace Machine

variable {m m' : Machine} {i : Instruction} {fault : Fault}

/-! ## What a failure does -/

/-- What the failure of an instruction leaves as it was. -/
structure KeptByFailure (m m' : Machine) : Prop where
  /-- The program is the same. -/
  program : m'.program = m.program
  /-- The same instruction comes next. -/
  pc : m'.pc = m.pc
  /-- The instruction does not count as executed. -/
  executed : m'.executed = m.executed
  /-- The tape is the same, in every cell and in its extent. -/
  tape : m'.tape = m.tape
  /-- The same input is left, and as much has been consumed. -/
  input : m'.input = m.input
  /-- The machine has finished only if it had finished before. -/
  finished : m'.finished = m.finished

/-- The tape refuses to grow to the address that a move leads to. -/
structure MoveRefused (m : Machine) (address : Int) (fault : Fault) (m' : Machine) : Prop where
  /-- The failure tells the address and the limit of the tape. -/
  fault : ∃ limit, m.tape.limit = some limit ∧ fault = .outOfCells ⟨address, limit⟩
  /-- The data pointer has been moved there. -/
  dp : m'.dp = address
  /-- The sink and its writer are as they were. -/
  output : m'.output = m.output

/-- The current cell is written, and the pending bytes cannot be handed over. -/
structure OutputFailed (m : Machine) (fault : Fault) (m' : Machine) : Prop where
  /-- The data pointer is as it was. -/
  dp : m'.dp = m.dp
  /-- One byte more has been written by the program. -/
  written : m'.output.written = m.output.written + 1
  /-- Either the writer does not take all of the bytes, and they are pending with the current cell
  behind them; or it takes them all and fails to pass them on, and none is pending any more. -/
  pending :
    (∃ cause, fault = .io cause ∧
      m.output.writer.writeAll (m.output.pending.push m.cell).toList =
        (.error cause, m'.output.writer) ∧
      m'.output.pending = m.output.pending.push m.cell) ∨
    ∃ cause w, fault = .io cause ∧
      m.output.writer.writeAll (m.output.pending.push m.cell).toList = (.ok (), w) ∧
      w.flush = (.error cause, m'.output.writer) ∧
      m'.output.writer.accepted.toList = m.output.pushed ++ [m.cell] ∧
      m'.output.pending = #[]

/-! ## One instruction -/

/-- A move that fails is refused. -/
lemma moveRefused_of_error {address : Int} (h : m.moveTo address = (.error fault, m')) :
    KeptByFailure m m' ∧ MoveRefused m address fault m' := by
  unfold moveTo at h
  split at h
  · rename_i refusal hrefusal
    obtain ⟨-, limit, hlimit, -, rfl⟩ := (Tape.refusal?_eq_some_iff _ _).mp hrefusal
    cases h
    exact ⟨⟨rfl, rfl, rfl, rfl, rfl, rfl⟩, ⟨limit, hlimit, rfl⟩, rfl, rfl⟩
  · cases h

/-- An output that fails has written the current cell. -/
lemma outputFailed_of_error (h : m.emit = (.error fault, m')) :
    KeptByFailure m m' ∧ OutputFailed m fault m' := by
  unfold emit at h
  split at h
  · rename_i cause sink hpush
    cases h
    refine ⟨⟨rfl, rfl, rfl, rfl, rfl, rfl⟩, ?_⟩
    rcases OutputSink.cases_of_flush_error (OutputSink.flush_of_push_error hpush) with
      ⟨hwrite, hsink⟩ | ⟨w, hwrite, hflush, hsink⟩
    · exact
        { dp := rfl
          written := congrArg OutputSink.written hsink
          pending := Or.inl ⟨cause, rfl, hwrite, congrArg OutputSink.pending hsink⟩ }
    · have haccepted : sink.writer.accepted.toList = m.output.pushed ++ [m.cell] := by
        have hkept := Writer.accepted_flush w
        rw [hflush] at hkept
        rw [hkept, Writer.accepted_of_writeAll hwrite]
        simp [OutputSink.collect, OutputSink.pushed]
      exact
        { dp := rfl
          written := congrArg OutputSink.written hsink
          pending := Or.inr ⟨cause, w, rfl, hwrite, hflush, haccepted,
            congrArg OutputSink.pending hsink⟩ }
  · cases h

/-- **Only moves and outputs fail** on a machine that stands in its program, and on its tape unless
it is stuck. -/
theorem Placed.failure (hm : m.Placed) (hi : m.instruction? = some i)
    (he : m.execute i = (.error fault, m')) :
    KeptByFailure m m' ∧
      (i = .right ∧ MoveRefused m (m.dp + 1) fault m' ∨
        i = .left ∧ MoveRefused m (m.dp - 1) fault m' ∨ i = .output ∧ OutputFailed m fault m') := by
  cases i with
  | right =>
    obtain ⟨hkept, hmove⟩ := moveRefused_of_error he
    exact ⟨hkept, Or.inl ⟨rfl, hmove⟩⟩
  | left =>
    obtain ⟨hkept, hmove⟩ := moveRefused_of_error he
    exact ⟨hkept, Or.inr (Or.inl ⟨rfl, hmove⟩)⟩
  | output =>
    obtain ⟨hkept, houtput⟩ := outputFailed_of_error he
    exact ⟨hkept, Or.inr (Or.inr ⟨rfl, houtput⟩)⟩
  | incr | decr | input =>
    -- the current cell is stored wherever such an instruction comes next
    obtain ⟨m₁, hok, -⟩ := hm.exists_execute hi rfl
    rw [hok] at he
    cases he
  | loopOpen | loopClose => cases he

end Machine

open Machine

namespace Calls

/-- **A failure has an exact frame.** Whatever calls were made from the start of a program, failed
ones included, and wherever the machine stands after them or in the course of the next one: if the
next instruction fails, then it is a move that is refused or an output that cannot be delivered. The
place in the program, the count of instructions, the tape and the input are as they were. -/
theorem failed_instruction_frame {program : Program} {config : Config} {reader : Reader}
    {writer : Writer} {calls : List (Call × Returned)} {m₀ m m' : Machine} {steps : List Step}
    {i : Instruction} {fault : Fault} (h : Calls (.start program config reader writer) calls m₀)
    (hwalk : Walk m₀ steps m) (hi : m.instruction? = some i)
    (he : m.execute i = (.error fault, m')) :
    KeptByFailure m m' ∧
      (i = .right ∧ MoveRefused m (m.dp + 1) fault m' ∨
        i = .left ∧ MoveRefused m (m.dp - 1) fault m' ∨ i = .output ∧ OutputFailed m fault m') := by
  obtain ⟨-, hplaced⟩ := placed_start program config reader writer
  exact (hwalk.travels (h.travels hplaced).placed).placed.failure hi he

/-- The program `.>` has one cell, and its writer is broken at first. The output fails and is then
repeated, and the move that follows is refused twice. -/
theorem failed_instruction_frame_of_one_cell :
    ∃ (program : Program) (start m m₁ m₂ : Machine) (calls : List (Call × Returned)),
      program.instructions = #[.output, .right] ∧
      start = .start program { threshold := 1, tapeLimit := some 1 } (.ofBytes [])
        { plan := [.broken] } ∧
      OutputFailed start (.io .brokenSink) m₁ ∧ m₁.output.pending = #[0] ∧
      Calls start calls m ∧ calls.length = 3 ∧ m.dp = 1 ∧
      MoveRefused m 2 (.outOfCells ⟨2, 1⟩) m₂ ∧ KeptByFailure m m₂ := by
  let start : Machine := .start ⟨#[.output, .right], ⟨#[0, 1]⟩, 0, rfl⟩
    { threshold := 1, tapeLimit := some 1 } (.ofBytes []) { plan := [.broken] }
  have hcalls : Calls start
      [(.next, .failed (.io .brokenSink)), (.next, .step ⟨0, .output, 1, 0, 0⟩),
        (.run, .failed (.outOfCells ⟨1, 1⟩))] _ :=
    .cons (.stepFails rfl) (.cons (.step rfl) (.cons (.runFails ⟨1, rfl⟩) (.nil _)))
  have hfirst : start.execute .output = (.error (.io .brokenSink), _) := rfl
  obtain ⟨-, hmove | hmove | ⟨-, houtput⟩⟩ :=
    failed_instruction_frame (.nil start) (.nil _) rfl hfirst
  · cases hmove.1
  · cases hmove.1
  obtain ⟨hkept, ⟨-, hmove⟩ | hmove | hmove⟩ :=
    failed_instruction_frame (i := .right) hcalls (.nil _) rfl rfl
  · exact ⟨_, start, _, _, _, _, rfl, rfl, houtput, rfl, hcalls, rfl, rfl, hmove, hkept⟩
  · cases hmove.1
  · cases hmove.1

end Calls

end TapeMachine

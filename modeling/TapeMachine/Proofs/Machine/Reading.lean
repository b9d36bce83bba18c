import Mathlib.Tactic
import TapeMachine.Proofs.Progress
import TapeMachine.Proofs.Stream.Taking

/-!
# Machines and their readers

Only an input sees the reader of a machine, and it sees no more of it than what it gives next.

## Main definitions

* `TapeMachine.Machine.withReader` — a machine with another reader.
* `TapeMachine.Machine.Fed` — a machine whose reader gives the last of some bytes.

## Main results

* `TapeMachine.Machine.execute_withReader`, `TapeMachine.Machine.execute_input_withReader` — an
  instruction over another reader.
* `TapeMachine.Machine.next_withReader`, `TapeMachine.Machine.finish_withReader` — a single step and
  the end of a run over another reader.
-/

set_option autoImplicit false

namespace TapeMachine

namespace Machine

variable {m : Machine} {i : Instruction}

/-- A machine with another reader. -/
def withReader (m : Machine) (reader : Reader) : Machine :=
  { m with input := { m.input with reader } }

/-- An instruction that is no input does not see the reader. -/
lemma execute_withReader (hi : i ≠ .input) (reader : Reader) :
    (m.withReader reader).execute i = ((m.execute i).1, (m.execute i).2.withReader reader) := by
  cases i with
  | input => exact absurd rfl hi
  | loopOpen | loopClose => rfl
  | right | left =>
    simp only [execute, moveTo, withReader]
    split <;> rfl
  | incr | decr =>
    simp only [execute, updateCell, withReader]
    split <;> rfl
  | output =>
    simp only [execute, emit, withReader, cell]
    split <;> rfl

/-- An instruction that is no input leaves the reader as it is. -/
lemma reader_execute (hi : i ≠ .input) : (m.execute i).2.input.reader = m.input.reader :=
  congrArg (fun r => r.2.input.reader) (execute_withReader hi m.input.reader)

/-- An input sees no more of the reader than what it gives next. -/
lemma execute_input_withReader {reader : Reader} (h : reader.next.1 = m.input.reader.next.1) :
    (m.withReader reader).execute .input =
      ((m.execute .input).1, (m.execute .input).2.withReader reader.next.2) := by
  rcases hnext : m.input.reader.next with ⟨received, rest⟩
  rcases hnext' : reader.next with ⟨received', rest'⟩
  rw [hnext, hnext'] at h
  obtain rfl : received' = received := h
  simp only [execute, receive, InputSource.readByte, withReader, hnext, hnext']
  cases received' <;> (simp only [updateCell]; split <;> rfl)

/-- An input leaves what the reader gives after it. -/
lemma reader_execute_input : (m.execute .input).2.input.reader = m.input.reader.next.2 := by
  have h := execute_input_withReader (m := m) rfl
  exact congrArg (fun r => r.2.input.reader) h

/-- A single step executes an instruction and reports it. -/
lemma next_of_instruction (hf : m.finished = false) (hi : m.instruction? = some i) :
    m.next =
      ((m.execute i).1.map fun _ =>
        ⟨m.pc, i, (m.execute i).2.pc, (m.execute i).2.dp, (m.execute i).2.cell⟩,
      (m.execute i).2) := by
  unfold next
  rcases he : m.execute i with ⟨_ | _, m'⟩ <;> simp only [hf, hi, he] <;> rfl

/-- A single step sees no more of the reader than its instruction does. -/
lemma next_withReader {reader rest : Reader} (hf : m.finished = false)
    (hi : m.instruction? = some i)
    (he : (m.withReader reader).execute i = ((m.execute i).1, (m.execute i).2.withReader rest)) :
    (m.withReader reader).next = (m.next.1, m.next.2.withReader rest) := by
  rw [next_of_instruction hf hi, next_of_instruction (m := m.withReader reader) hf hi, he]
  rfl

/-- The end of a run does not see the reader. -/
lemma finish_withReader (m : Machine) (reader : Reader) :
    (m.withReader reader).finish = (m.finish.1, m.finish.2.withReader reader) := by
  unfold finish withReader
  rcases m.output.flush with ⟨_ | _, output⟩ <;> rfl

/-! ## Readers of bytes -/

/-- The reader of a machine gives the last of some bytes, and then the end of the input. -/
def Fed (m : Machine) (bytes : List UInt8) : Prop :=
  ∃ rest, rest <:+ bytes ∧ m.input.reader = .ofBytes rest

namespace Fed

variable {bytes : List UInt8}

/-- An instruction takes bytes from the front only. -/
lemma execute (h : m.Fed bytes) (i : Instruction) : (m.execute i).2.Fed bytes := by
  obtain ⟨rest, hsuffix, hreader⟩ := h
  by_cases hi : i = .input
  · subst hi
    refine ⟨rest.tail, (List.tail_suffix rest).trans hsuffix, ?_⟩
    rw [reader_execute_input, hreader, Reader.next_ofBytes]
  · exact ⟨rest, hsuffix, (reader_execute hi).trans hreader⟩

/-- The end of a run takes no bytes. -/
lemma finish (h : m.Fed bytes) : m.finish.2.Fed bytes := by
  obtain ⟨rest, hsuffix, hreader⟩ := h
  have hfinish := congrArg (fun r => r.2.input.reader) (m.finish_withReader m.input.reader)
  exact ⟨rest, hsuffix, Eq.trans hfinish hreader⟩

/-- A step of a run takes bytes from the front only. -/
lemma advance (h : m.Fed bytes) : m.advance.state.Fed bytes := by
  unfold Machine.advance
  cases m.instruction? with
  | none => exact h.finish
  | some i =>
    have hexecute := h.execute i
    rcases he : m.execute i with ⟨_ | _, m'⟩ <;>
    · rw [he] at hexecute
      simp only [he]
      exact hexecute

/-- A walk takes bytes from the front only. -/
theorem walk {m' : Machine} {steps : List Step} (h : m.Fed bytes) (hwalk : Walk m steps m') :
    m'.Fed bytes := by
  induction hwalk with
  | nil => exact h
  | cons hnext _ ih =>
    obtain ⟨-, i, -, he, -⟩ := next_eq_ok_iff.mp hnext
    have hexecute := h.execute i
    rw [he] at hexecute
    exact ih hexecute

end Fed

end Machine

end TapeMachine

import Mathlib.Tactic
import TapeMachine.Proofs.Debug.Independence
import TapeMachine.Proofs.Progress
import TapeMachine.Proofs.Stream.Attempts

/-!
# Runs behind other output

A writer that never fails may have accepted bytes before a run begins. The run is the same as over a
fresh writer, instruction by instruction, and hands over the same bytes at the same moments; they
stand behind those that were accepted before.

## Main definitions

* `TapeMachine.OutputSink.Rerouted`, `TapeMachine.Machine.Rerouted` — the same sink, and the same
  machine, over a writer that has accepted other bytes before.

## Main results

* `TapeMachine.Machine.Rerouted.execute` — one instruction, executed behind other output.
* `TapeMachine.Machine.Rerouted.advance` — one step of a run.
-/

set_option autoImplicit false

namespace TapeMachine

/-! ## Sinks -/

/-- A writer that never fails passes on what it has accepted. -/
lemma Writer.Reliable.exists_flush_accepted {w : Writer} (h : w.Reliable) :
    ∃ w', w.flush = (.ok (), w') ∧ w'.Reliable ∧ w'.accepted = w.accepted := by
  obtain ⟨w', hflush, hw'⟩ := h.exists_flush
  refine ⟨w', hflush, hw', ?_⟩
  rw [← Writer.accepted_flush w, hflush]

namespace OutputSink

variable {before : List UInt8} {sink sink' : OutputSink}

/-- Two sinks collect the same bytes, over writers that never fail. That of the second one has
accepted other bytes before. -/
structure Rerouted (before : List UInt8) (sink sink' : OutputSink) : Prop where
  threshold : sink'.threshold = sink.threshold
  pending : sink'.pending = sink.pending
  written : sink'.written = sink.written
  reliable : sink.writer.Reliable
  reliable' : sink'.writer.Reliable
  accepted : sink'.writer.accepted.toList = before ++ sink.writer.accepted.toList

/-- Over a writer that never fails the pending bytes are handed over. -/
lemma exists_flush_eq (h : sink.writer.Reliable) :
    ∃ writer, sink.flush = (.ok (), { sink with writer, pending := #[] }) ∧ writer.Reliable ∧
      writer.accepted.toList = sink.writer.accepted.toList ++ sink.pending.toList := by
  obtain ⟨w₁, hwrite, hw₁⟩ := h.exists_writeAll sink.pending.toList
  obtain ⟨w₂, hflush, hw₂, haccepted⟩ := hw₁.exists_flush_accepted
  refine ⟨w₂, by simp only [flush, hwrite, hflush], hw₂, ?_⟩
  rw [haccepted, Writer.accepted_of_writeAll hwrite]

/-- The pending bytes are handed over by both sinks. -/
lemma Rerouted.flush (h : Rerouted before sink sink') :
    ∃ s s', sink.flush = (.ok (), s) ∧ sink'.flush = (.ok (), s') ∧ Rerouted before s s' := by
  obtain ⟨w, hflush, hw, haccepted⟩ := exists_flush_eq h.reliable
  obtain ⟨w', hflush', hw', haccepted'⟩ := exists_flush_eq h.reliable'
  refine ⟨_, _, hflush, hflush', h.threshold, rfl, h.written, hw, hw', ?_⟩
  rw [haccepted', haccepted, h.accepted, h.pending, List.append_assoc]

/-- A byte is written to both sinks. -/
lemma Rerouted.push (h : Rerouted before sink sink') (byte : UInt8) :
    ∃ s s', sink.push byte = (.ok (), s) ∧ sink'.push byte = (.ok (), s') ∧
      Rerouted before s s' := by
  have hcollect : Rerouted before (sink.collect byte) (sink'.collect byte) :=
    ⟨h.threshold, congrArg (·.push byte) h.pending, congrArg (· + 1) h.written, h.reliable,
      h.reliable', h.accepted⟩
  rw [push_eq, push_eq, hcollect.pending, h.threshold]
  split
  · exact hcollect.flush
  · exact ⟨_, _, rfl, rfl, hcollect⟩

end OutputSink

/-! ## Machines -/

namespace Machine

variable {before : List UInt8} {m m' : Machine}

/-- Two machines are at the same point of the same run. The writer of the second one has accepted
other bytes before. -/
structure Rerouted (before : List UInt8) (m m' : Machine) : Prop where
  same : SameComputation m m'
  finished : m'.finished = m.finished
  output : m.output.Rerouted before m'.output

namespace Rerouted

/-- An instruction leads to the same on both machines. -/
theorem execute (h : Rerouted before m m') (i : Instruction) :
    (m'.execute i).1 = (m.execute i).1 ∧ Rerouted before (m.execute i).2 (m'.execute i).2 := by
  by_cases hi : i = .output
  · subst hi
    obtain ⟨s, s', hpush, hpush', hsinks⟩ := h.output.push m.cell
    have hok : m.execute .output = (.ok (), { m with output := s }.advanceFrom m.pc) := by
      simp only [Machine.execute, emit, hpush]
    have hok' : m'.execute .output = (.ok (), { m' with output := s' }.advanceFrom m'.pc) := by
      simp only [Machine.execute, emit, h.same.cell, hpush']
    have hsame := h.same.execute_of_ok hok hok'
    rw [hok, hok']
    exact ⟨rfl, hsame, h.finished, hsinks⟩
  · have heq := h.same.eq_rewire
    have hexecute := execute_rewire (m := m) hi m'.output m'.finished
    rw [← heq] at hexecute
    rw [hexecute]
    refine ⟨rfl, .of_rewire _ _ _, ?_, ?_⟩
    · rw [finished_execute]
      exact h.finished
    · rw [output_execute m hi]
      exact h.output

/-- The end of a run is the same on both machines. -/
lemma finish (h : Rerouted before m m') :
    m'.finish.1 = m.finish.1 ∧ Rerouted before m.finish.2 m'.finish.2 := by
  obtain ⟨s, s', hflush, hflush', hsinks⟩ := h.output.flush
  simp only [Machine.finish, hflush, hflush']
  constructor
  · simp only [stats, h.same.executed, h.same.tape, h.same.input, hsinks.written]
  · exact ⟨⟨h.same.program, h.same.pc, h.same.dp, h.same.tape, h.same.input, h.same.executed⟩, rfl,
      hsinks⟩

/-- **A step of a run behind other output** is the same as over a fresh writer. -/
theorem advance (h : Rerouted before m m') :
    Progress.Related (Rerouted before) m.advance m'.advance := by
  unfold Machine.advance
  rw [h.same.instruction?]
  cases m.instruction? with
  | none =>
    obtain ⟨hresult, hmachines⟩ := h.finish
    rcases hf : m.finish with ⟨r, m₁⟩
    rcases hf' : m'.finish with ⟨r', m₁'⟩
    rw [hf, hf'] at hresult hmachines
    exact ⟨hresult.symm, hmachines⟩
  | some i =>
    obtain ⟨hresult, hmachines⟩ := h.execute i
    rcases he : m.execute i with ⟨r, m₁⟩
    rcases he' : m'.execute i with ⟨r', m₁'⟩
    rw [he, he'] at hresult hmachines
    obtain rfl : r' = r := hresult
    simp only [he, he']
    cases r' with
    | error fault => exact ⟨rfl, hmachines⟩
    | ok _ => exact hmachines

end Rerouted

/-- The machine of a program over a fresh writer, and over one that has accepted other bytes. -/
lemma rerouted_start (program : Program) (config : Config) (reader : Reader) {writer : Writer}
    (h : writer.Reliable) :
    Rerouted writer.accepted.toList (.start program config reader {})
      (.start program config reader writer) :=
  ⟨⟨rfl, rfl, rfl, rfl, rfl, rfl⟩, rfl, rfl, rfl, rfl,
    ⟨rfl, List.forall_mem_nil _, List.forall_mem_nil _⟩, h, (List.append_nil _).symm⟩

end Machine

end TapeMachine

import Mathlib.Tactic
import TapeMachine.Proofs.Debug.Calls

/-!
# The output does not influence the computation

What a program computes does not depend on how its output is collected, nor on what the writer does
with it. A writer that fails ends a call in the midst of an output, but the machine is left in front
of this output with all but its sink as it was. So whatever calls are made, the machine stands where
a machine with a writer that never fails stands after as many steps.

## Main definitions

* `TapeMachine.Machine.SameComputation` — two machines at the same point of the same computation.
* `TapeMachine.Call.Attempts` — an instruction is attempted in the course of a call.

## Main results

* `TapeMachine.Machine.SameComputation.execute_of_ok`,
  `TapeMachine.Machine.SameComputation.execute_of_error` — one instruction, executed over two sinks.
* `TapeMachine.Machine.SameComputation.walk` — a walk, made again over a writer that never fails.
* `TapeMachine.Calls.exists_reference` — whatever calls are made, the machine is at a point of the
  computation over a writer that never fails.
* `TapeMachine.output_does_not_influence_computation` — two machines with different sinks, driven by
  different calls.
-/

set_option autoImplicit false

namespace TapeMachine

namespace Machine

variable {m m' m₁ m₁' m₂ : Machine} {i : Instruction} {fault : Fault} {report : Step}

/-- Two machines are at the same point of the same computation. They may differ in their sinks, and
in whether they have finished. -/
structure SameComputation (m m' : Machine) : Prop where
  /-- The program is the same. -/
  program : m'.program = m.program
  /-- The next instruction is the same. -/
  pc : m'.pc = m.pc
  /-- The data pointer is the same. -/
  dp : m'.dp = m.dp
  /-- The tape is the same, in every cell and in its extent. -/
  tape : m'.tape = m.tape
  /-- The same input is left, and as much has been consumed. -/
  input : m'.input = m.input
  /-- As many instructions have been executed. -/
  executed : m'.executed = m.executed

/-- A machine with another sink, finished or not. -/
def rewire (m : Machine) (output : OutputSink) (finished : Bool) : Machine :=
  { m with output, finished }

namespace SameComputation

lemma refl (m : Machine) : SameComputation m m := ⟨rfl, rfl, rfl, rfl, rfl, rfl⟩

lemma symm (h : SameComputation m m') : SameComputation m' m :=
  ⟨h.program.symm, h.pc.symm, h.dp.symm, h.tape.symm, h.input.symm, h.executed.symm⟩

lemma trans (h : SameComputation m m₁) (h' : SameComputation m₁ m') : SameComputation m m' :=
  ⟨h'.program.trans h.program, h'.pc.trans h.pc, h'.dp.trans h.dp, h'.tape.trans h.tape,
    h'.input.trans h.input, h'.executed.trans h.executed⟩

/-- The one machine is the other with its own sink. -/
lemma eq_rewire (h : SameComputation m m') : m' = m.rewire m'.output m'.finished := by
  obtain ⟨hprogram, hpc, hdp, htape, hinput, hexecuted⟩ := h
  cases m'
  subst hprogram hpc hdp htape hinput hexecuted
  rfl

lemma of_rewire (m : Machine) (output : OutputSink) (finished : Bool) :
    SameComputation m (m.rewire output finished) := ⟨rfl, rfl, rfl, rfl, rfl, rfl⟩

lemma instruction? (h : SameComputation m m') : m'.instruction? = m.instruction? := by
  rw [Machine.instruction?, h.program, h.pc, Machine.instruction?]

lemma cell (h : SameComputation m m') : m'.cell = m.cell := by
  rw [Machine.cell, h.tape, h.dp, Machine.cell]

end SameComputation

/-! ## Single instructions over two sinks -/

/-- An instruction that is no output does not see the sink. -/
lemma execute_rewire (hi : i ≠ .output) (output : OutputSink) (finished : Bool) :
    (m.rewire output finished).execute i =
      ((m.execute i).1, (m.execute i).2.rewire output finished) := by
  cases i with
  | output => exact absurd rfl hi
  | loopOpen | loopClose => rfl
  | right | left =>
    simp only [execute, moveTo, rewire]
    split <;> rfl
  | incr | decr | input =>
    simp only [execute, receive, updateCell, rewire]
    split <;> rfl

/-- An output that succeeds leads behind it. -/
lemma emit_of_ok (h : m.emit = (.ok (), m')) : SameComputation (m.advanceFrom m.pc) m' := by
  unfold emit at h
  split at h
  · cases h
  · cases h
    exact .of_rewire (m.advanceFrom m.pc) _ m.finished

/-- An output fails because of the writer, and leaves the computation where it is. -/
lemma emit_of_error (h : m.emit = (.error fault, m')) :
    (∃ cause, fault = .io cause) ∧ SameComputation m m' := by
  unfold emit at h
  split at h
  · cases h
    exact ⟨⟨_, rfl⟩, .of_rewire m _ m.finished⟩
  · cases h

/-- Where an instruction fails, either a writer has failed and the computation is where it was, or
the instruction is no output and the cells do not suffice. -/
lemma cases_of_error (h : m.execute i = (.error fault, m')) :
    (∃ cause, fault = .io cause) ∧ SameComputation m m' ∨
      i ≠ .output ∧ ∃ refusal, fault = .outOfCells refusal := by
  by_cases hi : i = .output
  · subst hi
    exact Or.inl (emit_of_error h)
  · refine Or.inr ⟨hi, ?_⟩
    cases i with
    | output => exact absurd rfl hi
    | loopOpen | loopClose => cases h
    | _ =>
      simp only [execute, moveTo, updateCell, receive] at h
      split at h <;> cases h
      exact ⟨_, rfl⟩

namespace SameComputation

/-- **An instruction that succeeds over two sinks** leads to the same point of the computation. -/
theorem execute_of_ok (h : SameComputation m m') (he : m.execute i = (.ok (), m₁))
    (he' : m'.execute i = (.ok (), m₁')) : SameComputation m₁ m₁' := by
  by_cases hi : i = .output
  · subst hi
    have hadvanced : SameComputation (m.advanceFrom m.pc) (m'.advanceFrom m'.pc) :=
      ⟨h.program, congrArg (· + 1) h.pc, h.dp, h.tape, h.input, congrArg (· + 1) h.executed⟩
    exact ((emit_of_ok he).symm.trans hadvanced).trans (emit_of_ok he')
  · rw [h.eq_rewire, execute_rewire hi, he] at he'
    cases he'
    exact .of_rewire _ _ _

/-- **A move that is refused** is refused whatever the sink, with the same address. -/
theorem execute_of_error (h : SameComputation m m') {refusal : OutOfCells}
    (he : m.execute i = (.error (.outOfCells refusal), m₁)) :
    ∃ m₁', m'.execute i = (.error (.outOfCells refusal), m₁') := by
  rcases cases_of_error he with ⟨⟨cause, hio⟩, -⟩ | ⟨hi, -⟩
  · cases hio
  · rw [h.eq_rewire, execute_rewire hi, he]
    exact ⟨_, rfl⟩

/-! ## Walks over a writer that never fails -/

/-- An instruction that succeeds over some sink does so over a writer that never fails. -/
lemma exists_execute (h : SameComputation m m') (hw : m'.output.writer.Reliable)
    (he : m.execute i = (.ok (), m₁)) :
    ∃ m₁', m'.execute i = (.ok (), m₁') ∧ m₁'.output.writer.Reliable := by
  by_cases hi : i = .output
  · subst hi
    obtain ⟨output, hpush, hreliable⟩ := OutputSink.exists_push hw m'.cell
    refine ⟨{ m' with output }.advanceFrom m'.pc, ?_, hreliable⟩
    simp only [execute, emit, hpush]
  · rw [h.eq_rewire, execute_rewire hi, he]
    exact ⟨_, rfl, hw⟩

/-- **A walk over some sink** is a walk over a writer that never fails, with the same reports.

**Proof sketch.** Induction on the walk. Every step of it succeeds over the other writer too, and
leads to the same point of the computation. -/
theorem walk {steps : List Step} (h : SameComputation m m') (hf : m'.finished = false)
    (hw : m'.output.writer.Reliable) (hwalk : Walk m steps m₁) :
    ∃ m₁', Walk m' steps m₁' ∧ SameComputation m₁ m₁' ∧ m₁'.output.writer.Reliable := by
  induction hwalk generalizing m' with
  | nil => exact ⟨m', .nil m', h, hw⟩
  | @cons m m₁ m₂ report steps hs _ ih =>
    obtain ⟨-, i, hi, he, rfl⟩ := next_eq_ok_iff.mp hs
    obtain ⟨m₁', he', hw'⟩ := h.exists_execute hw he
    have h₁ := h.execute_of_ok he he'
    have hs' : m'.next = (.ok ⟨m.pc, i, m₁.pc, m₁.dp, m₁.cell⟩, m₁') := by
      refine next_eq_ok_iff.mpr ⟨hf, i, h.instruction?.trans hi, he', ?_⟩
      rw [h.pc, h₁.pc, h₁.dp, h₁.cell]
    obtain ⟨m₂', hwalk', h₂, hw₂⟩ := ih h₁ ((next_frame hs').2.1.trans hf) hw'
    exact ⟨m₂', .cons hs' hwalk', h₂, hw₂⟩

end SameComputation

/-- The end of a run is no step of the computation. -/
lemma sameComputation_of_finish {r : Except Fault Stats} (h : m.finish = (r, m')) :
    SameComputation m m' ∧ ∀ refusal, r ≠ .error (.outOfCells refusal) := by
  unfold finish at h
  split at h
  · cases h
    exact ⟨.of_rewire m _ m.finished, by simp⟩
  · cases h
    exact ⟨.of_rewire m _ true, by simp⟩

/-- **What concludes a call** leaves the computation where it is, unless cells are refused. -/
lemma Concludes.sameComputation {returned : Returned} (h : Concludes m returned m')
    (hne : ∀ refusal, returned ≠ .failed (.outOfCells refusal)) : SameComputation m m' := by
  cases h with
  | step | lost | nothing => exact .refl m
  | fails _ _ he =>
    rcases cases_of_error he with ⟨-, hsame⟩ | ⟨-, refusal, rfl⟩
    · exact hsame
    · exact absurd rfl (hne refusal)
  | flushFails _ _ hfinish | completed _ _ hfinish => exact (sameComputation_of_finish hfinish).1
  | quit => exact .of_rewire m m.output true

/-- A call that is refused cells has executed a move last. -/
lemma Concludes.exists_refused {refusal : OutOfCells}
    (h : Concludes m (.failed (.outOfCells refusal)) m') :
    ∃ i, m.instruction? = some i ∧ m.execute i = (.error (.outOfCells refusal), m') := by
  cases h with
  | fails _ hi he => exact ⟨_, hi, he⟩
  | flushFails _ _ hfinish => exact absurd rfl ((sameComputation_of_finish hfinish).2 refusal)

end Machine

open Machine

/-! ## Attempts -/

/-- In the course of a call on a machine `m` the instruction is attempted that comes next on the
machine `m₁`. It may succeed or not. -/
inductive Call.Attempts : Call → Machine → Machine → Prop
  | next {m : Machine} (hf : m.finished = false) (hi : m.instruction? ≠ none) : Attempts next m m
  | run {m m₁ : Machine} (hf : m.finished = false)
    (hreach : Progress.Reaches Machine.advance m m₁) (hi : m₁.instruction? ≠ none) :
    Attempts run m m₁
  | debug {m : Machine} {d : Debugger} {s : Session} {suspending : Bool}
    (hreach : Progress.Reaches Session.step (.start m d .separate) s)
    (hf : s.machine.finished = false) (hp : s.phase = .executing suspending)
    (hi : s.machine.instruction? ≠ none) : Attempts (debug d) m s.machine

/-- What a session reaches lies on a walk of its machine. -/
lemma Session.exists_walk_of_reached {s s' : Session} (hw : s.wiring = .separate)
    (h : Progress.Reaches Session.step s s') : ∃ steps, Walk s.machine steps s'.machine := by
  induction h with
  | refl s => exact ⟨[], .nil _⟩
  | running h _ ih =>
    obtain ⟨hw₁, hfirst⟩ := machine_of_running hw h
    obtain ⟨steps, hwalk⟩ := ih hw₁
    exact ⟨_, hfirst.append hwalk⟩

/-- What is attempted in the course of a call comes next behind some walk. -/
lemma Call.Attempts.exists_walk {call : Call} {m m₁ : Machine} (h : call.Attempts m m₁) :
    ∃ steps, Walk m steps m₁ := by
  cases h with
  | next => exact ⟨[], .nil m⟩
  | run hf hreach => exact exists_walk_of_reaches hf hreach
  | debug hreach => exact Session.exists_walk_of_reached rfl hreach

/-- A call fails where it attempts an instruction to which cells are refused. -/
lemma Call.Attempts.exists_returns {call : Call} {m m₁ m₂ : Machine} (h : call.Attempts m m₁)
    {i : Instruction} (hi : m₁.instruction? = some i) {refusal : OutOfCells}
    (he : m₁.execute i = (.error (.outOfCells refusal), m₂)) :
    ∃ m', call.Returns m (.failed (.outOfCells refusal)) m' := by
  have hend : m₁.advance = .ended (.error (.outOfCells refusal)) m₂ :=
    advance_eq_ended_iff.mpr (Or.inr ⟨i, _, hi, he, rfl⟩)
  cases h with
  | next hf =>
    exact ⟨m₂, .stepFails (next_eq_error_iff.mpr (Or.inr ⟨hf, i, hi, he⟩))⟩
  | run hf hreach =>
    exact ⟨m₂, .runFails ((runsTo_iff_halts hf).mpr
      (Progress.halts_iff_reaches.mpr ⟨m₁, hreach, hend⟩))⟩
  | @debug _ _ s _ hreach hf hp =>
    have hstep : s.step = .ended (.error (.outOfCells refusal)) { s with machine := m₂ } := by
      rw [Session.step_of_executing hf hp, Session.advance_of_ended hf hend]
      rfl
    exact ⟨_, .debug hreach hstep⟩

/-! ## Calls over two sinks -/

namespace Calls

variable {m m' m₀ : Machine} {calls : List (Call × Returned)}

/-- **Whatever calls are made**, as long as none of them is refused cells, the machine is at a point
of the computation over a writer that never fails.

**Proof sketch.** Induction on the calls. Each of them is a walk, which can be made over the other
writer too, and what concludes it leaves the computation where it is. -/
theorem exists_reference (h : Calls m calls m') (hsame : SameComputation m m₀)
    (hf : m₀.finished = false) (hw : m₀.output.writer.Reliable)
    (hcells : ∀ c ∈ calls, ∀ refusal, c.2 ≠ .failed (.outOfCells refusal)) :
    ∃ steps m₀', Walk m₀ steps m₀' ∧ SameComputation m' m₀' ∧ m₀'.output.writer.Reliable := by
  induction h generalizing m₀ with
  | nil m => exact ⟨[], m₀, .nil m₀, hsame, hw⟩
  | cons hcall _ ih =>
    obtain ⟨steps, m₁, hwalk, hc, -⟩ := hcall.exists_walk
    obtain ⟨m₁', hwalk₁, hsame₁, hw₁⟩ := hsame.walk hf hw hwalk
    have hkept := hc.sameComputation (hcells _ List.mem_cons_self)
    obtain ⟨steps', m₂', hwalk₂, hsame₂, hw₂⟩ := ih (hkept.symm.trans hsame₁)
      (hwalk₁.frame.2.trans hf) hw₁ fun c hc => hcells c (List.mem_cons_of_mem _ hc)
    exact ⟨steps ++ steps', m₂', hwalk₁.append hwalk₂, hsame₂, hw₂⟩

end Calls

/-- A machine at the start of a program, with a writer that never fails. -/
def Machine.reference (program : Program) (reader : Reader) (tapeLimit : Option Nat) : Machine :=
  .start program { tapeLimit } reader {}

/-- **A machine that is driven by calls** is at all times, also in the course of a call, where the
machine with a writer that never fails is after as many steps. -/
lemma Calls.exists_reference_walk {program : Program} {reader : Reader} {config : Config}
    {writer : Writer} {calls : List (Call × Returned)} {m m₁ : Machine} {steps : List Step}
    (h : Calls (.start program config reader writer) calls m)
    (hcells : ∀ c ∈ calls, ∀ refusal, c.2 ≠ .failed (.outOfCells refusal))
    (hwalk : Walk m steps m₁) :
    ∃ steps₀ m₀, Walk (reference program reader config.tapeLimit) steps₀ m₀ ∧
      SameComputation m₁ m₀ ∧ steps₀.length = m₁.executed := by
  have hstart : SameComputation (.start program config reader writer)
      (reference program reader config.tapeLimit) := ⟨rfl, rfl, rfl, rfl, rfl, rfl⟩
  have hreliable : (reference program reader config.tapeLimit).output.writer.Reliable :=
    ⟨rfl, List.forall_mem_nil _, List.forall_mem_nil _⟩
  obtain ⟨steps₀, m₀, hwalk₀, hsame, hw⟩ := h.exists_reference hstart rfl hreliable hcells
  obtain ⟨m₀', hwalk₁, hsame₁, -⟩ := hsame.walk hwalk₀.frame.2 hw hwalk
  refine ⟨steps₀ ++ steps, m₀', hwalk₀.append hwalk₁, hsame₁, ?_⟩
  rw [← hsame₁.executed, (hwalk₀.append hwalk₁).executed]
  exact (Nat.zero_add _).symm

/-- **The output does not influence the computation.** Two machines execute the same program on the
same input with the same limit. They may collect their output differently, have different writers,
and be driven by different calls, of which none has been refused cells so far.

Whenever the two have executed the same number of instructions, also in the course of a call, they
are at the same point of the computation. If the next call on one of them is refused cells then the
other does not get further, and it is refused the same cells when it attempts the instruction. -/
theorem output_does_not_influence_computation {program : Program} {reader : Reader}
    {config config' : Config} {writer writer' : Writer} {calls calls' : List (Call × Returned)}
    {m m' : Machine} (hlimit : config'.tapeLimit = config.tapeLimit)
    (h : Calls (.start program config reader writer) calls m)
    (h' : Calls (.start program config' reader writer') calls' m')
    (hcells : ∀ c ∈ calls, ∀ refusal, c.2 ≠ .failed (.outOfCells refusal))
    (hcells' : ∀ c ∈ calls', ∀ refusal, c.2 ≠ .failed (.outOfCells refusal)) :
    (∀ steps steps' m₁ m₁', Walk m steps m₁ → Walk m' steps' m₁' → m₁.executed = m₁'.executed →
      SameComputation m₁ m₁') ∧
    ∀ (call : Call) (refusal : OutOfCells) (m₁ : Machine),
      call.Returns m (.failed (.outOfCells refusal)) m₁ →
      (∀ steps m₂, Walk m' steps m₂ → m₂.executed ≤ m₁.executed) ∧
      ∀ (call' : Call) (m₂ : Machine), call'.Attempts m' m₂ → m₂.executed = m₁.executed →
        ∃ m₁', call'.Returns m' (.failed (.outOfCells refusal)) m₁' := by
  have hsame : ∀ steps steps' m₁ m₁', Walk m steps m₁ → Walk m' steps' m₁' →
      m₁.executed = m₁'.executed → SameComputation m₁ m₁' := by
    intro steps steps' m₁ m₁' hw hw' heq
    obtain ⟨steps₀, m₀, hw₀, hs, hlen⟩ := h.exists_reference_walk hcells hw
    obtain ⟨steps₀', m₀', hw₀', hs', hlen'⟩ := h'.exists_reference_walk hcells' hw'
    rw [hlimit] at hw₀'
    obtain ⟨-, rfl⟩ := hw₀.unique hw₀' (by omega)
    exact hs.trans hs'.symm
  refine ⟨hsame, fun call refusal m₁ hcall => ?_⟩
  obtain ⟨steps, m₂, hw, hc, -⟩ := hcall.exists_walk
  obtain ⟨i, hi, he⟩ := hc.exists_refused
  have hexecuted : m₁.executed = m₂.executed := by
    rw [place_of_error he]
    rfl
  rw [hexecuted]
  constructor
  · intro steps' m₃ hw'
    obtain ⟨steps₀, m₀, hw₀, hs, hlen⟩ := h.exists_reference_walk hcells hw
    obtain ⟨steps₀', m₀', hw₀', -, hlen'⟩ := h'.exists_reference_walk hcells' hw'
    rw [hlimit] at hw₀'
    -- the machine with the writer that never fails does not get further either
    obtain ⟨m₀'', he₀⟩ := hs.execute_of_error he
    have hend := advance_eq_ended_iff.mpr
      (Or.inr ⟨i, _, hs.instruction?.trans hi, he₀, rfl⟩)
    have hle := hw₀.length_le_of_ended hend hw₀'
    omega
  · intro call' m₃ hattempt heq
    obtain ⟨steps', hw'⟩ := hattempt.exists_walk
    have hs := hsame steps steps' m₂ m₃ hw hw' heq.symm
    obtain ⟨m₃', he'⟩ := hs.execute_of_error he
    exact hattempt.exists_returns (hs.instruction?.trans hi) he'

/-- The program `.>` has one cell. On one machine the writer fails once, on the other it never does;
both stop at the same move. -/
theorem output_does_not_influence_computation_of_failed_output :
    ∃ (program : Program) (calls calls' : List (Call × Returned)) (m m' : Machine),
      program.instructions = #[.output, .right] ∧
      Calls (.start program { threshold := 1, tapeLimit := some 1 } (.ofBytes [])
        { plan := [.broken] }) calls m ∧
      Calls (.start program { tapeLimit := some 1 } (.ofBytes []) {}) calls' m' ∧
      calls.length = 2 ∧ calls'.length = 1 ∧ SameComputation m m' ∧
      ∃ m₁, Call.run.Returns m' (.failed (.outOfCells ⟨1, 1⟩)) m₁ := by
  have h : Calls (.start ⟨#[.output, .right], ⟨#[0, 1]⟩, 0, rfl⟩
      { threshold := 1, tapeLimit := some 1 } (.ofBytes []) { plan := [.broken] })
      [(.next, .failed (.io .brokenSink)), (.next, .step ⟨0, .output, 1, 0, 0⟩)] _ :=
    .cons (.stepFails rfl) (.cons (.step rfl) (.nil _))
  have h' : Calls (.start ⟨#[.output, .right], ⟨#[0, 1]⟩, 0, rfl⟩
      { tapeLimit := some 1 } (.ofBytes []) {}) [(.next, .step ⟨0, .output, 1, 0, 0⟩)] _ :=
    .cons (.step rfl) (.nil _)
  have hlimit : ({ tapeLimit := some 1 } : Config).tapeLimit =
      ({ threshold := 1, tapeLimit := some 1 } : Config).tapeLimit := rfl
  obtain ⟨hsame, hrefused⟩ :=
    output_does_not_influence_computation hlimit h h' (by simp) (by simp)
  have hcall := hrefused .next ⟨1, 1⟩ _ (.stepFails rfl)
  exact ⟨_, _, _, _, _, rfl, h, h', rfl, rfl, hsame [] [] _ _ (.nil _) (.nil _) rfl,
    hcall.2 .run _ (.run rfl (.refl _) (by decide)) rfl⟩

end TapeMachine

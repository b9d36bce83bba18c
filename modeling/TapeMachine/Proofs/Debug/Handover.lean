import Mathlib.Tactic
import TapeMachine.Proofs.Debug.Exhausted
import TapeMachine.Proofs.Debug.Following
import TapeMachine.Proofs.Stream.Blocks

/-!
# The output of a driven machine

A machine whose writer never fails hands its output over block by block, however it is driven. Only
the end of the program hands over what is left of it: a session that the operator ends, a call that
is refused cells and a call in whose course the machine is looked at all leave the bytes behind the
last block pending.

## Main definitions

* `TapeMachine.Machine.OutputAt` — a machine has handed over what another one has, and at the end of
  the program the rest.

## Main results

* `TapeMachine.Machine.Walk.inBlocks` — a walk divides what it writes into blocks.
* `TapeMachine.Calls.exists_walk_of_reliable` — whatever calls are made, the output is that of a
  walk.
* `TapeMachine.output_is_handed_over_in_blocks` — what reaches the writer, byte by byte and run by
  run.
* `TapeMachine.Calls.refused_call_keeps_output_pending` — what reaches it if the cells run out.
-/

set_option autoImplicit false

namespace TapeMachine

namespace Machine

variable {m m' m₁ : Machine} {steps : List Step} {i : Instruction} {fault : Fault}

/-! ## Walks over a writer that never fails -/

section

variable {size earlier : Nat} {prior bytes : List UInt8}

/-- An instruction that succeeds writes the current cell if it is an output, and else nothing. -/
lemma inBlocks_of_execute (h : m.output.InBlocks size prior earlier bytes)
    (he : m.execute i = (.ok (), m')) :
    m'.output.InBlocks size prior earlier (bytes ++ if i = .output then [m'.cell] else []) := by
  by_cases hi : i = .output
  · subst hi
    obtain ⟨output, hpush, houtput⟩ := h.push m.cell
    simp only [execute, emit, hpush] at he
    cases he
    exact houtput
  · have hkept := output_execute m hi
    rw [he] at hkept
    rw [hkept, if_neg hi, List.append_nil]
    exact h

/-- **A walk divides what it writes into blocks.** -/
theorem Walk.inBlocks (hw : Walk m steps m') (h : m.output.InBlocks size prior earlier bytes) :
    m'.output.InBlocks size prior earlier (bytes ++ emitted steps) := by
  induction hw generalizing bytes with
  | nil =>
    rw [show emitted [] = [] from rfl, List.append_nil]
    exact h
  | cons hnext _ ih =>
    obtain ⟨-, i, -, he, rfl⟩ := next_eq_ok_iff.mp hnext
    have hrest := ih (inBlocks_of_execute h he)
    rw [List.append_assoc] at hrest
    exact hrest

end

/-- A writer that never fails does not come to fail on a walk. -/
lemma Walk.reliable (hw : Walk m steps m') (hf : m.finished = false)
    (h : m.output.writer.Reliable) : m'.output.writer.Reliable := by
  obtain ⟨m₁, hw₁, -, hreliable⟩ := (SameComputation.refl m).walk hf h hw
  obtain ⟨-, rfl⟩ := hw.unique hw₁ rfl
  exact hreliable

/-- No walk leads on from a machine that stands at a refused move. -/
lemma Exhausted.eq_of_walk {move : Instruction} {limit : Nat} (h : m.Exhausted move limit)
    (hw : Walk m steps m') : m' = m := by
  cases hw with
  | nil => rfl
  | cons hnext _ =>
    obtain ⟨-, i, hi, he, -⟩ := next_eq_ok_iff.mp hnext
    obtain rfl : move = i := Option.some.inj (h.next.symm.trans hi)
    rw [h.execute] at he
    cases he

/-- Over a writer that never fails only moves fail, for want of cells, and they leave the output as
it is. -/
lemma Placed.exists_refused (hm : m.Placed) (h : m.output.writer.Reliable)
    (hi : m.instruction? = some i) (he : m.execute i = (.error fault, m')) :
    ∃ refusal, fault = .outOfCells refusal ∧ m'.executed = m.executed ∧ m'.output = m.output := by
  obtain ⟨hkept, ⟨-, hmove⟩ | ⟨-, hmove⟩ | ⟨rfl, -⟩⟩ := hm.failure hi he
  · obtain ⟨limit, -, rfl⟩ := hmove.fault
    exact ⟨_, rfl, hkept.executed, hmove.output⟩
  · obtain ⟨limit, -, rfl⟩ := hmove.fault
    exact ⟨_, rfl, hkept.executed, hmove.output⟩
  · obtain ⟨output, hpush, -⟩ := OutputSink.exists_push h m.cell
    simp only [execute, emit, hpush] at he
    cases he

/-! ## Calls over a writer that never fails -/

/-- The output of a machine `m` is that of a machine `m₁` on the path of single steps, unless the
program was executed to its end and the rest of the output was handed over. -/
structure OutputAt (m₁ m : Machine) (completed : Prop) : Prop where
  /-- As many instructions have been executed. -/
  executed : m.executed = m₁.executed
  /-- The sink is the same unless the program was executed to its end. -/
  kept : ¬ completed → m.output = m₁.output
  /-- If it was, the other machine stands at the end of the program, and the pending bytes have been
  handed over. -/
  ended : completed →
    m.finished = true ∧ m₁.instruction? = none ∧ m₁.output.flush = (.ok (), m.output)

namespace OutputAt

/-- A machine that was not executed to its end has the output of one with the same sink. -/
lemma of_kept {completed : Prop} (hc : ¬ completed) (hexecuted : m.executed = m₁.executed)
    (houtput : m.output = m₁.output) : OutputAt m₁ m completed where
  executed := hexecuted
  kept _ := houtput
  ended h := absurd h hc

variable {size earlier : Nat} {prior bytes : List UInt8}

/-- At the end of the program all bytes have been handed over. -/
lemma delivered {completed : Prop} (h : OutputAt m₁ m completed) (hc : completed)
    (hblocks : m₁.output.InBlocks size prior earlier bytes) :
    m.output.writer.accepted.toList = prior ++ bytes ∧ m.output.pending = #[] := by
  obtain ⟨-, -, hflush⟩ := h.ended hc
  obtain ⟨haccepted, hpending, -⟩ := OutputSink.delivered_of_flush hflush
  exact ⟨haccepted.trans hblocks.pushed_eq, hpending⟩

end OutputAt

end Machine

open Machine
open Command (answers)

/-- A machine is started with nothing pushed onto its sink. -/
lemma Machine.inBlocks_start {program : Program} {config : Config} {reader : Reader}
    {writer : Writer} (h : writer.Reliable) :
    (Machine.start program config reader writer).output.InBlocks (max config.threshold 1)
      writer.accepted.toList writer.flushes [] :=
  .fresh h config.threshold

/-- A walk from the start of a program has one step for each instruction that has been executed. -/
lemma Machine.Walk.length_of_start {program : Program} {config : Config} {reader : Reader}
    {writer : Writer} {trace : List Step} {m : Machine}
    (hw : Walk (.start program config reader writer) trace m) : trace.length = m.executed := by
  rw [hw.executed]
  exact (Nat.zero_add _).symm

namespace Calls

variable {m m₀ m' : Machine} {calls : List (Call × Returned)} {steps : List Step}

/-- One call more. -/
lemma concat {call : Call} {returned : Returned} (h : Calls m calls m₀)
    (hcall : call.Returns m₀ returned m') : Calls m (calls ++ [(call, returned)]) m' := by
  induction h with
  | nil => exact .cons hcall (.nil m')
  | cons hfirst _ ih => exact .cons hfirst (ih hcall)

/-- No call executes the program to its end on a machine that stands at a refused move. -/
lemma not_hasCompleted_of_exhausted {move : Instruction} {limit : Nat}
    (hx : m.Exhausted move limit) (h : Calls m calls m') : ¬ HasCompleted calls := by
  rintro ⟨call, stats, hmem⟩
  obtain ⟨k, hk⟩ := List.mem_iff_getElem?.mp hmem
  have hrefused := ((iff_of_exhausted hx).mp h).1 k _ hk
  cases hrefused

/-- **Whatever calls are made over a writer that never fails**, the machine has the output of a
walk, after the calls as well as in the course of the next one.

**Proof sketch.** Induction on the calls. A call that finishes the machine, or is refused cells, is
the last one to do anything with the output; every other call goes on along the path. -/
theorem exists_walk_of_reliable (h : Calls m calls m₀) (hwalk : Walk m₀ steps m')
    (hm : m.Placed) (hf : m.finished = false) (hreliable : m.output.writer.Reliable) :
    ∃ trace m₁, Walk m trace m₁ ∧ OutputAt m₁ m' (HasCompleted calls) := by
  induction h with
  | nil m => exact ⟨steps, m', hwalk, .of_kept (by simp [HasCompleted]) rfl rfl⟩
  | @cons m m₂ m₀ call returned calls hcall hcalls ih =>
    obtain ⟨first, m₁, hw, hc, -⟩ := hcall.exists_walk
    have hm₁ : m₁.Placed := (hw.travels hm).placed
    have hf₁ : m₁.finished = false := hw.frame.2.trans hf
    have hreliable₁ : m₁.output.writer.Reliable := hw.reliable hf hreliable
    -- a call that does nothing in the end leaves the rest to the calls that follow
    have hgo : m₂ = m₁ → (∀ stats, returned ≠ .completed stats) → ∃ trace m₃, Walk m trace m₃ ∧
        OutputAt m₃ m' (HasCompleted ((call, returned) :: calls)) := by
      rintro rfl hne
      obtain ⟨trace, m₃, hw', hat⟩ := ih hwalk hm₁ hf₁ hreliable₁
      rw [hasCompleted_cons hne]
      exact ⟨first ++ trace, m₃, hw.append hw', hat⟩
    cases hc with
    | step | lost | nothing => exact hgo rfl (by simp)
    | fails _ hi he =>
      obtain ⟨refusal, rfl, hexecuted, houtput⟩ := hm₁.exists_refused hreliable₁ hi he
      -- the calls that follow are refused cells as well, and only move the data pointer
      obtain ⟨move, hx, -⟩ := exists_exhausted hm hcall
      obtain rfl := (exhausted_of_calls hx hcalls).eq_of_walk hwalk
      obtain ⟨-, rfl⟩ := (iff_of_exhausted hx).mp hcalls
      refine ⟨first, m₁, hw, .of_kept ?_ hexecuted houtput⟩
      rw [hasCompleted_cons (by simp)]
      exact not_hasCompleted_of_exhausted hx hcalls
    | flushFails _ _ hfinish =>
      obtain ⟨output, hflush, -⟩ := OutputSink.exists_flush hreliable₁
      simp only [finish, hflush] at hfinish
      cases hfinish
    | @completed _ stats _ hi hfinish =>
      have hcompleted : HasCompleted ((call, .completed stats) :: calls) :=
        ⟨call, stats, List.mem_cons_self⟩
      obtain ⟨hs, hf₂⟩ := standsAt_of_finish hfinish hcompleted
      obtain ⟨rfl, -⟩ := hcalls.eq_of_finished hf₂
      obtain rfl := hwalk.eq_of_finished hf₂
      exact ⟨first, m₁, hw, hs.executed, hs.kept, fun hc => ⟨hf₂, hi, hs.flushed hc⟩⟩
    | quit =>
      obtain ⟨rfl, hnone⟩ := hcalls.eq_of_finished rfl
      obtain rfl := hwalk.eq_of_finished rfl
      refine ⟨first, m₁, hw, .of_kept ?_ rfl rfl⟩
      rw [hasCompleted_cons (by simp)]
      exact hnone

/-- **A call that is refused cells leaves the output behind the last block pending.** Whatever calls
were made before it, and whatever kind of call it is, the writer has accepted the longest beginning
of the bytes written so far that consists of whole blocks. All of them have been accepted only if
they happen to fill the blocks. -/
theorem refused_call_keeps_output_pending {program : Program} {config : Config} {reader : Reader}
    {writer : Writer} (hreliable : writer.Reliable)
    (h : Calls (.start program config reader writer) calls m₀) {call : Call}
    {refusal : OutOfCells} (hcall : call.Returns m₀ (.failed (.outOfCells refusal)) m) :
    ∃ trace m₁ front, Walk (.start program config reader writer) trace m₁ ∧
      trace.length = m.executed ∧
      m.output.writer.accepted.toList = writer.accepted.toList ++ front ∧
      LongestMultiple (max config.threshold 1) (emitted trace) front ∧
      front ++ m.output.pending.toList = emitted trace ∧
      (m.output.pending = #[] ↔ max config.threshold 1 ∣ (emitted trace).length) := by
  obtain ⟨-, hplaced⟩ := placed_start program config reader writer
  obtain ⟨trace, m₁, hw, hat⟩ :=
    (h.concat hcall).exists_walk_of_reliable (.nil m) hplaced rfl hreliable
  obtain ⟨move, hx, -⟩ := exists_exhausted (h.travels hplaced).placed hcall
  have hnone : ¬ HasCompleted (calls ++ [(call, .failed (.outOfCells refusal))]) := by
    intro hc
    have hf := (hat.ended hc).1
    rw [hx.running] at hf
    cases hf
  have hblocks := hw.inBlocks (inBlocks_start hreliable)
  rw [← hat.kept hnone] at hblocks
  obtain ⟨front, haccepted, hlongest, hrest⟩ := hblocks.exists_front
  exact ⟨trace, m₁, front, hw, hw.length_of_start.trans hat.executed.symm, haccepted, hlongest,
    hrest, hblocks.pending_eq_empty_iff⟩

/-- The program `.>.>` has two cells. With blocks of two bytes both bytes are delivered before the
second move is refused. -/
theorem refused_call_keeps_output_pending_of_two_bytes :
    ∃ (program : Program) (writer : Writer) (m : Machine) (trace : List Step),
      program.instructions = #[.output, .right, .output, .right] ∧ writer.Reliable ∧
      Call.run.Returns (.start program { threshold := 2, tapeLimit := some 2 } (.ofBytes []) writer)
        (.failed (.outOfCells ⟨2, 2⟩)) m ∧
      m.output.pending = #[] ∧ 2 ∣ (emitted trace).length ∧
      m.output.writer.accepted.toList = emitted trace := by
  let program : Program := ⟨#[.output, .right, .output, .right], ⟨#[0, 1, 2, 3]⟩, 0, rfl⟩
  have hreliable : ({} : Writer).Reliable := ⟨rfl, by simp, by simp⟩
  have hrun : Call.run.Returns
      (.start program { threshold := 2, tapeLimit := some 2 } (.ofBytes []) {})
      (.failed (.outOfCells ⟨2, 2⟩)) _ := .runFails ⟨4, rfl⟩
  obtain ⟨trace, -, front, -, -, haccepted, -, hrest, hpending⟩ :=
    refused_call_keeps_output_pending hreliable (.nil _) hrun
  refine ⟨program, {}, _, trace, rfl, hreliable, hrun, rfl, hpending.mp rfl, ?_⟩
  rw [haccepted, ← hrest]
  exact (List.append_nil _).symm

/-- The program `+.>` has one cell. It has written a byte when its move is refused, and the run
returns with this byte still pending. -/
theorem refused_call_withholds_output :
    ∃ (program : Program) (writer : Writer) (m m₁ : Machine) (trace : List Step),
      program.instructions = #[.incr 1, .output, .right] ∧ writer.Reliable ∧
      Call.run.Returns (.start program { tapeLimit := some 1 } (.ofBytes []) writer)
        (.failed (.outOfCells ⟨1, 1⟩)) m ∧
      Walk (.start program { tapeLimit := some 1 } (.ofBytes []) writer) trace m₁ ∧
      trace.length = m.executed ∧ emitted trace = [1] ∧ m.output.writer.accepted = #[] ∧
      m.output.pending = #[1] :=
  ⟨⟨#[.incr 1, .output, .right], ⟨#[0, 1, 2]⟩, 0, rfl⟩, {}, _, _, _, rfl,
    ⟨rfl, by simp, by simp⟩, .runFails ⟨3, rfl⟩, .cons rfl (.cons rfl (.nil _)), rfl, rfl, rfl, rfl⟩

end Calls

/-! ## All ways of driving a machine -/

/-- The program of a machine over one writer that never fails is executed to its end over every
other, however its output is collected. -/
lemma Machine.exists_runsTo_of_walk {program : Program} {reader : Reader} {config config' : Config}
    {writer writer' : Writer} {trace : List Step} {m₁ : Machine}
    (hlimit : config'.tapeLimit = config.tapeLimit) (hreliable : writer'.Reliable)
    (hw : Walk (.start program config reader writer) trace m₁) (hi : m₁.instruction? = none) :
    ∃ stats m', (Machine.start program config' reader writer').RunsTo (.ok stats) m' ∧
      m'.output.writer.accepted.toList = writer'.accepted.toList ++ emitted trace ∧
      m'.output.pending = #[] := by
  have hsame : SameComputation (.start program config reader writer)
      (.start program config' reader writer') :=
    ⟨rfl, rfl, rfl, congrArg Tape.blank hlimit, rfl, rfl⟩
  obtain ⟨m₁', hw', hsame₁, hreliable₁⟩ := hsame.walk rfl hreliable hw
  obtain ⟨output, hflush, -⟩ := OutputSink.exists_flush hreliable₁
  obtain ⟨haccepted, hpending, -⟩ := OutputSink.delivered_of_flush hflush
  have hend : m₁'.advance =
      .ended (.ok { m₁' with output, finished := true }.stats)
        { m₁' with output, finished := true } := by
    refine advance_eq_ended_iff.mpr (Or.inl ⟨hsame₁.instruction?.trans hi, ?_⟩)
    simp only [finish, hflush]
  refine ⟨_, _, (runsTo_iff_walk rfl).mpr ⟨trace, m₁', hw', hend⟩, ?_, hpending⟩
  exact haccepted.trans (hw'.inBlocks (inBlocks_start hreliable)).pushed_eq

/-- **Output is handed over in blocks, which the result does not show.**

However many bytes are pushed onto a fresh sink over a writer that never fails, every push succeeds.
The writer has accepted the bytes of all blocks that are complete, and was asked to pass them on once
for each block; the other bytes, fewer than a block, are pending.

So at all times, whatever calls are made from the start of a program and also in the course of a
call, the writer has accepted the longest beginning of the bytes written so far that consists of
whole blocks. Once the program has been executed to its end all bytes have been accepted, and the
same are accepted with any other block size and by any other writer that never fails. -/
theorem output_is_handed_over_in_blocks :
    (∀ (writer : Writer) (threshold : Nat) (bytes : List UInt8), writer.Reliable →
      let size := max threshold 1
      let fresh : OutputSink := { writer, threshold }
      let sink := fresh.after (bytes.map .push)
      (∀ byte, (sink.push byte).1 = .ok ()) ∧
      sink.writer.accepted.toList =
        writer.accepted.toList ++ bytes.take (size * (bytes.length / size)) ∧
      sink.pending.toList = bytes.drop (size * (bytes.length / size)) ∧
      sink.pending.size = bytes.length % size ∧ sink.pending.size < size ∧
      sink.writer.flushes = writer.flushes + bytes.length / size) ∧
    ∀ program config reader writer calls m₀ steps m, writer.Reliable →
      Calls (.start program config reader writer) calls m₀ → Walk m₀ steps m →
      ∃ trace m₁, Walk (.start program config reader writer) trace m₁ ∧
        trace.length = m.executed ∧
        (¬ HasCompleted calls → ∃ front,
          m.output.writer.accepted.toList = writer.accepted.toList ++ front ∧
          LongestMultiple (max config.threshold 1) (emitted trace) front ∧
          front ++ m.output.pending.toList = emitted trace) ∧
        (HasCompleted calls →
          m₁.instruction? = none ∧
          m.output.writer.accepted.toList = writer.accepted.toList ++ emitted trace ∧
          m.output.pending = #[] ∧
          ∀ (config' : Config) (writer' : Writer), config'.tapeLimit = config.tapeLimit →
            writer'.Reliable →
            ∃ stats m', (Machine.start program config' reader writer').RunsTo (.ok stats) m' ∧
              m'.output.writer.accepted.toList = writer'.accepted.toList ++ emitted trace ∧
              m'.output.pending = #[]) := by
  constructor
  · intro writer threshold bytes hreliable size fresh sink
    have h : sink.InBlocks size writer.accepted.toList writer.flushes bytes :=
      (OutputSink.InBlocks.fresh hreliable threshold).after bytes
    refine ⟨fun byte => ?_, h.accepted, h.pending, h.size_pending, ?_, h.flushes⟩
    · obtain ⟨sink', hpush, -⟩ := h.push byte
      rw [hpush]
    · rw [h.size_pending]
      exact Nat.mod_lt _ h.size_pos
  · intro program config reader writer calls m₀ steps m hreliable h hwalk
    obtain ⟨-, hplaced⟩ := Calls.placed_start program config reader writer
    obtain ⟨trace, m₁, hw, hat⟩ := h.exists_walk_of_reliable hwalk hplaced rfl hreliable
    have hblocks := hw.inBlocks (inBlocks_start hreliable)
    refine ⟨trace, m₁, hw, hw.length_of_start.trans hat.executed.symm, fun hc => ?_, fun hc => ?_⟩
    · rw [hat.kept hc]
      exact hblocks.exists_front
    · obtain ⟨-, hi, -⟩ := hat.ended hc
      obtain ⟨haccepted, hpending⟩ := hat.delivered hc hblocks
      exact ⟨hi, haccepted, hpending, fun config' writer' hlimit hreliable' =>
        exists_runsTo_of_walk hlimit hreliable' hw hi⟩

/-- A debug session that the operator ends returns so, and leaves the machine where it is. -/
lemma Session.Quits.returns {m m₁ : Machine} {d : Debugger} {script : List Command}
    {steps : List Step} {report : Step} (h : Session.Quits m (answers script) steps report m₁)
    (hf : m.finished = false) (hscreen : d.screen.Reliable) (hlines : d.commands.Says script) :
    (Call.debug d).Returns m .quit { m₁ with finished := true } := by
  obtain ⟨s', hruns, hm⟩ :=
    (Session.quits_iff hf hscreen hlines).mpr ⟨steps, report, m₁, h, rfl⟩
  obtain ⟨s, hreach, hend⟩ := Session.runsTo_iff_reaches.mp hruns
  rw [← hm]
  exact .debug hreach hend

/-- The program `...` writes three bytes, in blocks of two, to a writer that is interrupted and
then accepts a single byte. The operator of a debug session ends it behind the last instruction: the
third byte is still pending. A run delivers it, and so does one with blocks of another size. -/
theorem output_is_handed_over_in_blocks_of_quit :
    ∃ (program : Program) (writer : Writer) (d : Debugger) (m : Machine) (trace : List Step)
      (front : List UInt8),
      program.instructions = #[.output, .output, .output] ∧ writer.Reliable ∧
      Calls (.start program { threshold := 2 } (.ofBytes []) writer) [(.debug d, .quit)] m ∧
      trace.length = 3 ∧ m.output.writer.accepted.toList = front ∧
      LongestMultiple 2 (emitted trace) front ∧ front ++ [0] = emitted trace ∧
      (∃ m', Calls (.start program { threshold := 2 } (.ofBytes []) writer)
        [(.run, .completed ⟨3, 1, 3, 0⟩)] m') ∧
      ∃ stats m', (Machine.start program {} (.ofBytes []) writer).RunsTo (.ok stats) m' ∧
        m'.output.pending = #[] := by
  let writer : Writer := { plan := [.interrupted, .accepts (some 1)] }
  let program : Program := ⟨#[.output, .output, .output], ⟨#[0, 1, 2]⟩, 0, rfl⟩
  let d : Debugger := ⟨.ofBytes (Text.encode "s\ns\nq\n"), {}, 2⟩
  have hreliable : writer.Reliable := by
    refine ⟨rfl, ?_, by simp [writer]⟩
    simp [writer, WriteReply.Helpful]
  have hlines : d.commands.Says (Command.script "s\ns\nq\n") :=
    (Reader.delivers_ofBytes _).says_script
  have hanswers : answers (Command.script "s\ns\nq\n") = [.step, .step, .quit] := by decide
  have hquits : Session.Quits (.start program { threshold := 2 } (.ofBytes []) writer)
      (answers (Command.script "s\ns\nq\n"))
      [⟨0, .output, 1, 0, 0⟩, ⟨1, .output, 2, 0, 0⟩] ⟨2, .output, 3, 0, 0⟩ _ :=
    ⟨.cons rfl (.cons rfl (.cons rfl (.nil _))), [], hanswers⟩
  have hsession : Calls (.start program { threshold := 2 } (.ofBytes []) writer)
      [(.debug d, .quit)] _ :=
    .cons (hquits.returns rfl ⟨rfl, by simp [d], by simp [d]⟩ hlines) (.nil _)
  have hrun : Calls (.start program { threshold := 2 } (.ofBytes []) writer)
      [(.run, .completed ⟨3, 1, 3, 0⟩)] _ := .cons (.run ⟨4, rfl⟩) (.nil _)
  obtain ⟨trace, -, -, hlength, hkept, -⟩ := output_is_handed_over_in_blocks.2 program
    { threshold := 2 } (.ofBytes []) writer _ _ [] _ hreliable hsession (.nil _)
  obtain ⟨front, haccepted, hlongest, hrest⟩ := hkept (by simp [HasCompleted])
  obtain ⟨_, _, -, -, -, hended⟩ := output_is_handed_over_in_blocks.2 program
    { threshold := 2 } (.ofBytes []) writer _ _ [] _ hreliable hrun (.nil _)
  obtain ⟨-, -, -, hevery⟩ := hended ⟨.run, _, List.mem_singleton_self _⟩
  obtain ⟨stats, m', hruns, -, hpending⟩ := hevery {} writer rfl hreliable
  exact ⟨program, writer, d, _, trace, front, rfl, hreliable, hsession, hlength, haccepted,
    hlongest, hrest, ⟨_, hrun⟩, stats, m', hruns, hpending⟩

end TapeMachine

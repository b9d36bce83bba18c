import Mathlib.Tactic
import TapeMachine.Proofs.Structured.Agreement

/-!
# The machine computes structured programs

A program text whose brackets balance is a nested program, and to run it is to evaluate that: the
run ends when the evaluation does, for the same reason and in the same state.

## Main definitions

* `TapeMachine.Structured.Computed` — a run that is complete has computed what an evaluation has.
* `TapeMachine.Structured.Implements` — a machine runs as an evaluation goes.

## Main results

* `TapeMachine.Structured.implements_of_code` — a program implements the nested program that it
  consists of.
* `TapeMachine.Structured.Implements.folded` — so does its folded form.
* `TapeMachine.Structured.machine_implements_structured` — the same for a program text.
-/

set_option autoImplicit false

namespace TapeMachine

namespace Structured

open Machine

variable {limit : Option Nat} {prior : List UInt8} {s s' : State} {m m' : Machine}

/-- A machine whose run is complete is in the state of an evaluation that has ended. When the
evaluation began the writer had accepted the bytes `prior`. -/
structure Computed (prior : List UInt8) (s : State) (m : Machine) : Prop where
  dp : m.dp = s.dp
  cells : ∀ a, m.tape.read a = s.cells a
  extent : m.tape.extent = (s.least, s.greatest)
  accepted : m.output.writer.accepted.toList = prior ++ s.output
  pending : m.output.pending = #[]
  input : m.input = s.input

/-- A machine implements an evaluation: its run is complete when the evaluation ends, and then the
state is the same; the tape limit stops its run when it stops the evaluation, at the same address;
otherwise neither ends. -/
structure Implements (prior : List UInt8) (m : Machine) (evaluation : Nat → Outcome) : Prop where
  /-- The run is complete exactly when the evaluation ends normally. -/
  completes : (∃ stats m', m.RunsTo (.ok stats) m') ↔ ∃ fuel s, evaluation fuel = .ended s
  /-- The state is then the same. -/
  computed : ∀ stats m' fuel s, m.RunsTo (.ok stats) m' → evaluation fuel = .ended s →
    Computed prior s m'
  /-- The run fails for want of cells exactly when the evaluation does. -/
  refused : ∀ refusal, (∃ m', m.RunsTo (.error (.outOfCells refusal)) m') ↔
    ∃ fuel, evaluation fuel = .refused refusal
  /-- The run fails for no other reason. -/
  fault : ∀ fault m', m.RunsTo (.error fault) m' → ∃ refusal, fault = .outOfCells refusal
  /-- The run goes on for ever exactly when the evaluation does. -/
  diverges : m.Diverges ↔ ∀ fuel, evaluation fuel = .exhausted

/-- A machine implements an evaluation if its run ends as the evaluation does, and does not end
unless the evaluation does. -/
lemma Implements.of_ends {evaluation : Nat → Outcome}
    (hended : ∀ {fuel s}, evaluation fuel = .ended s →
      ∃ stats m', m.RunsTo (.ok stats) m' ∧ Computed prior s m')
    (hrefused : ∀ {fuel refusal}, evaluation fuel = .refused refusal →
      ∃ m', m.RunsTo (.error (.outOfCells refusal)) m')
    (hends : ∀ {r m'}, m.RunsTo r m' → ∃ fuel, evaluation fuel ≠ .exhausted) :
    Implements prior m evaluation := by
  -- what the run leads to decides what the evaluation leads to, as a run has one result only
  have hresult : ∀ {r m'}, m.RunsTo r m' → ∃ fuel,
      (∃ s stats, evaluation fuel = .ended s ∧ r = .ok stats) ∨
        ∃ refusal, evaluation fuel = .refused refusal ∧ r = .error (.outOfCells refusal) := by
    intro r m' hr
    obtain ⟨fuel, hne⟩ := hends hr
    refine ⟨fuel, ?_⟩
    cases ho : evaluation fuel with
    | ended s =>
      obtain ⟨stats, m'', hr', -⟩ := hended ho
      exact Or.inl ⟨s, stats, rfl, (hr.unique hr').1⟩
    | refused refusal =>
      obtain ⟨m'', hr'⟩ := hrefused ho
      exact Or.inr ⟨refusal, rfl, (hr.unique hr').1⟩
    | exhausted => exact absurd ho hne
  refine ⟨⟨?_, ?_⟩, ?_, fun refusal => ⟨?_, ?_⟩, ?_, ?_⟩
  · rintro ⟨stats, m', hr⟩
    obtain ⟨fuel, ⟨s, -, ho, -⟩ | ⟨refusal, -, herror⟩⟩ := hresult hr
    · exact ⟨fuel, s, ho⟩
    · cases herror
  · rintro ⟨fuel, s, ho⟩
    obtain ⟨stats, m', hr, -⟩ := hended ho
    exact ⟨stats, m', hr⟩
  · intro stats m' fuel s hr ho
    obtain ⟨stats', m'', hr', hc⟩ := hended ho
    obtain ⟨-, rfl⟩ := hr.unique hr'
    exact hc
  · rintro ⟨m', hr⟩
    obtain ⟨fuel, ⟨s, stats, -, hok⟩ | ⟨refusal', ho, herror⟩⟩ := hresult hr
    · cases hok
    · cases herror
      exact ⟨fuel, ho⟩
  · rintro ⟨fuel, ho⟩
    exact hrefused ho
  · intro fault m' hr
    obtain ⟨fuel, ⟨s, stats, -, hok⟩ | ⟨refusal, -, herror⟩⟩ := hresult hr
    · cases hok
    · cases herror
      exact ⟨refusal, rfl⟩
  · rw [diverges_iff_not_runsTo]
    constructor
    · intro hd fuel
      cases ho : evaluation fuel with
      | ended s =>
        obtain ⟨stats, m', hr, -⟩ := hended ho
        exact absurd hr (hd _ _)
      | refused refusal =>
        obtain ⟨m', hr⟩ := hrefused ho
        exact absurd hr (hd _ _)
      | exhausted => rfl
    · intro hall r m' hr
      obtain ⟨fuel, hne⟩ := hends hr
      exact hne (hall fuel)

/-- A machine at the start of a program is in the state at the start of an evaluation. -/
lemma agrees_start (program : Program) (config : Config) (reader : Reader) {writer : Writer}
    (hw : writer.Reliable) :
    Agrees config.tapeLimit writer.accepted.toList (.start reader)
      (.start program config reader writer) where
  running := rfl
  dp := rfl
  cells a := Tape.read_blank a _
  extent := rfl
  bound := rfl
  input := rfl
  output := rfl
  reliable := hw
  executed := rfl
  visited := ⟨le_rfl, le_rfl⟩
  within _ _ := le_max_left _ _

/-- Where an evaluation has ended at the end of the program the run is complete. -/
lemma runsTo_of_agrees {steps : List Step} {m₀ : Machine} (hw : Walk m₀ steps m)
    (hi : m.instruction? = none) (h : Agrees limit prior s m) :
    ∃ m', m₀.RunsTo (.ok m'.stats) m' ∧ Computed prior s m' ∧
      m'.executed = s.basics + s.entries + s.iterations := by
  obtain ⟨output, hflush, -⟩ := OutputSink.exists_flush h.reliable
  obtain ⟨hpushed, hpending, -⟩ := OutputSink.pushed_of_flush hflush
  have hfinish : m.finish =
      (.ok { m with output, finished := true }.stats, { m with output, finished := true }) := by
    simp only [finish, hflush]
  have hf₀ : m₀.finished = false := hw.frame.2.symm.trans h.running
  refine ⟨{ m with output, finished := true }, (runsTo_iff_walk hf₀).mpr ⟨steps, m, hw,
    advance_eq_ended_iff.mpr (Or.inl ⟨hi, hfinish⟩)⟩, ?_, h.executed⟩
  refine ⟨h.dp, h.cells, h.extent, ?_, hpending, h.input⟩
  change output.writer.accepted.toList = prior ++ s.output
  rw [← h.output, ← hpushed, OutputSink.pushed, hpending]
  simp

section

variable {block : Block} {fuel : Nat}

/-- The program that is just a nested program goes where its evaluation leads. -/
lemma tracks_whole (hcode : m.program.instructions.toList = block.code) (hpc : m.pc = 0)
    (h : Agrees limit prior s m) (fuel : Nat) :
    Tracks limit prior fuel m block.code.length (block.eval limit fuel s) := by
  have hcode' : m.program.instructions.toList = [] ++ (block.code ++ []) := by
    rw [hcode, List.nil_append, List.append_nil]
  simpa using block.tracks_eval fuel hcode' hpc h

/-- The program that is just a nested program computes what its evaluation computes. -/
lemma runsTo_of_ended (hcode : m.program.instructions.toList = block.code) (hpc : m.pc = 0)
    (h : Agrees limit prior s m) (ho : block.eval limit fuel s = .ended s') :
    ∃ m', m.RunsTo (.ok m'.stats) m' ∧ Computed prior s' m' ∧
      m'.executed = s'.basics + s'.entries + s'.iterations := by
  have htracks := tracks_whole hcode hpc h fuel
  rw [ho] at htracks
  obtain ⟨steps, m₁, hw, hpc₁, ha⟩ := htracks
  refine runsTo_of_agrees hw ?_ ha
  rw [instruction?_eq, hw.frame.1, hcode, hpc₁]
  simp

/-- The program that is just a nested program is refused the moves that its evaluation is
refused. -/
lemma runsTo_of_refused (hcode : m.program.instructions.toList = block.code) (hpc : m.pc = 0)
    (h : Agrees limit prior s m) {refusal : OutOfCells}
    (ho : block.eval limit fuel s = .refused refusal) :
    ∃ m', m.RunsTo (.error (.outOfCells refusal)) m' := by
  have htracks := tracks_whole hcode hpc h fuel
  rw [ho] at htracks
  obtain ⟨steps, m₁, m', hw, hend⟩ := htracks
  exact ⟨m', (runsTo_iff_walk h.running).mpr ⟨steps, m₁, hw, hend⟩⟩

/-- If the program that is just a nested program ends so does its evaluation.

**Proof sketch.** With more fuel than the run has steps the evaluation would lead to a walk that is
longer than the run. -/
lemma exists_fuel_of_runsTo (hcode : m.program.instructions.toList = block.code) (hpc : m.pc = 0)
    (h : Agrees limit prior s m) {r : Except Fault Stats} (hr : m.RunsTo r m') :
    ∃ fuel, block.eval limit fuel s ≠ .exhausted := by
  obtain ⟨steps, m₁, hw, hend⟩ := (runsTo_iff_walk h.running).mp hr
  refine ⟨steps.length + 1, fun ho => ?_⟩
  have htracks := tracks_whole hcode hpc h (steps.length + 1)
  rw [ho] at htracks
  obtain ⟨steps', m₂, hw', hlen⟩ := htracks
  have := hw.length_le_of_ended hend hw'
  omega

/-- The program that is just a nested program implements its evaluation. -/
lemma implements_of_code (hcode : m.program.instructions.toList = block.code) (hpc : m.pc = 0)
    (h : Agrees limit prior s m) : Implements prior m fun fuel => block.eval limit fuel s := by
  refine .of_ends (fun ho => ?_) (fun ho => runsTo_of_refused hcode hpc h ho)
    (fun hr => exists_fuel_of_runsTo hcode hpc h hr)
  obtain ⟨m', hr, hc, -⟩ := runsTo_of_ended hcode hpc h ho
  exact ⟨m'.stats, m', hr, hc⟩

end

/-- A folded program implements an evaluation that the program as it was written implements. -/
lemma Implements.folded {folded plain : Machine} {evaluation : Nat → Outcome}
    (h : Implements prior plain evaluation) (hsame : SameBehaviour folded plain) :
    Implements prior folded evaluation := by
  refine .of_ends (fun {fuel s} ho => ?_) (fun {fuel refusal} ho => ?_) (fun {r m'} hr => ?_)
  · obtain ⟨stats, plain', hr'⟩ := h.completes.mpr ⟨fuel, s, ho⟩
    have hc := h.computed _ _ _ _ hr' ho
    obtain ⟨r, folded', hr, hend⟩ := hsame.of_plain _ _ hr'
    obtain ⟨rfl, -⟩ | ⟨fault, -, herror⟩ := hend.outcome
    · refine ⟨_, folded', hr, ?_⟩
      refine ⟨?_, fun a => ?_, ?_, ?_, ?_, ?_⟩
      · rw [← hend.dp, hc.dp]
      · rw [← hend.tape, hc.cells]
      · rw [← hend.tape, hc.extent]
      · rw [← hend.output, hc.accepted]
      · rw [← hend.output, hc.pending]
      · rw [← hend.input, hc.input]
    · cases herror
  · obtain ⟨plain', hr'⟩ := (h.refused refusal).mpr ⟨fuel, ho⟩
    obtain ⟨r, folded', hr, hend⟩ := hsame.of_plain _ _ hr'
    obtain ⟨-, hok⟩ | ⟨fault, rfl, herror⟩ := hend.outcome
    · cases hok
    · cases herror
      exact ⟨folded', hr⟩
  · obtain ⟨r', plain', hr', -⟩ := hsame.of_folded _ _ hr
    by_contra hall
    push Not at hall
    exact diverges_iff_not_runsTo.mp (h.diverges.mpr hall) _ _ hr'

/-! ## Program texts -/

/-- **The machine computes the structured language.** A text whose brackets balance is a nested
program, and it loads. Over a writer that never fails the machine implements the evaluation of the
nested program, folded or not. If it is not folded the instructions that the machine counts are the
basic instructions evaluated, one test for each loop at its beginning, and one for each loop body
evaluated to its end.

**Proof sketch.** The program as it was written goes where the evaluation leads, by induction on the
nested program. A folded program behaves like the program as it was written. -/
theorem machine_implements_structured {source : List UInt8}
    (hb : Balanced (plainInstructions source)) (fold : Bool) (config : Config) (reader : Reader)
    {writer : Writer} (hw : writer.Reliable) :
    ∃ program block, Program.load source fold = .ok program ∧
      Block.ofSymbols? (symbols source) = some block ∧
      Implements writer.accepted.toList (.start program config reader writer)
        (fun fuel => block.eval config.tapeLimit fuel (.start reader)) ∧
      (fold = false → ∀ stats m' fuel s,
        (Machine.start program config reader writer).RunsTo (.ok stats) m' →
        block.eval config.tapeLimit fuel (.start reader) = .ended s →
        stats.instructions = s.basics + s.entries + s.iterations) := by
  obtain ⟨block, hblock⟩ := Block.exists_ofSymbols?_iff.mpr hb
  obtain ⟨plain, hplain⟩ := (Program.exists_load_iff source false).mpr hb
  have hcode : plain.instructions.toList = block.code := by
    rw [(Program.load_spec hplain).2, Block.code, Block.ofSymbols?_eq_some_iff.mp hblock]
    rfl
  have hstart := agrees_start plain config reader hw
  have himplements := implements_of_code (m := .start plain config reader writer) hcode rfl hstart
  cases fold with
  | false =>
    refine ⟨plain, block, hplain, hblock, himplements, fun _ stats m' fuel s hr ho => ?_⟩
    obtain ⟨m'', hr', -, hcount⟩ :=
      runsTo_of_ended (m := .start plain config reader writer) hcode rfl hstart ho
    obtain ⟨hstats, -⟩ := hr.unique hr'
    cases hstats
    exact hcount
  | true =>
    obtain ⟨folded, hfolded⟩ := (Program.exists_load_iff source true).mpr hb
    have hsame := (Unfolds.start hfolded hplain config reader writer).sameBehaviour rfl rfl
    exact ⟨folded, block, hfolded, hblock, himplements.folded hsame, by simp⟩

/-- The program `,[.,]` copies its input, here the byte 7, to a writer that is interrupted. -/
theorem machine_implements_structured_of_copy :
    ∃ program stats m', Program.load [44, 91, 46, 44, 93] false = .ok program ∧
      (Machine.start program {} (.ofBytes [7]) { plan := [.interrupted] }).RunsTo (.ok stats) m' ∧
      m'.output.writer.accepted.toList = [7] ∧ stats.instructions = 5 := by
  have hw : Writer.Reliable { plan := [.interrupted] } :=
    ⟨rfl, by simp [WriteReply.Helpful], by simp⟩
  obtain ⟨program, block, hload, hblock, himplements, hcount⟩ :=
    machine_implements_structured
      (show Balanced (plainInstructions [44, 91, 46, 44, 93]) by decide) false {} (.ofBytes [7]) hw
  have heval : ∃ s, block.eval none 2 (.start (.ofBytes [7])) = .ended s ∧ s.output = [7] ∧
      s.basics + s.entries + s.iterations = 5 := by
    cases hblock
    exact ⟨_, rfl, rfl, rfl⟩
  obtain ⟨s, ho, houtput, hfive⟩ := heval
  obtain ⟨stats, m', hr⟩ := himplements.completes.mpr ⟨2, s, ho⟩
  refine ⟨program, stats, m', hload, hr, ?_, ?_⟩
  · rw [(himplements.computed _ _ _ _ hr ho).accepted, houtput]
    rfl
  · rw [hcount rfl _ _ _ _ hr ho, hfive]

end Structured

end TapeMachine

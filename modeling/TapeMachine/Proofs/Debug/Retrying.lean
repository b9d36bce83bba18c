import Mathlib.Tactic
import TapeMachine.Proofs.Debug.Emissions
import TapeMachine.Proofs.Debug.Exhausted
import TapeMachine.Proofs.Stream.Attempts

/-!
# Retrying repeats output

An output that fails leaves its byte with the sink, and the machine in front of the output. The call
that tries again writes the same byte once more. So what goes to the sink is what a machine with a
writer that never fails would write, each byte repeated once for every attempt that failed.

## Main definitions

* `TapeMachine.Machine.outputs` — the outputs of a walk, each with its place and its byte.
* `TapeMachine.failures` — how often the output at some place has failed.
* `TapeMachine.Repeats` — the attempts that were made repeat the outputs of a walk.
* `TapeMachine.Machine.Retraces` — a machine stands where a walk of another one has led, and its
  sink has received the repeated outputs of that walk.
* `TapeMachine.OutputRepeated` — the law of repetition.

## Main results

* `TapeMachine.Repeats.fails`, `TapeMachine.Repeats.succeeds`, `TapeMachine.Repeats.executes` — one
  attempt more, or one instruction more.
* `TapeMachine.Machine.Retraces.act` — one act more of any call.
* `TapeMachine.Calls.retrying_repeats_output` — every moment of any calls.
-/

set_option autoImplicit false

namespace TapeMachine

open Machine

/-! ## Outputs and attempts -/

/-- The outputs among the steps of a walk from the start of a program: the number of instructions in
front of each, and the byte that it writes. -/
def Machine.outputs (steps : List Step) : List (Nat × UInt8) :=
  steps.zipIdx.filterMap fun (step, n) =>
    if step.instruction = .output then some (n, step.cell) else none

/-- How many attempts of the output behind `n` instructions have failed. -/
def failures (made : List Emission) (n : Nat) : Nat :=
  made.countP fun e => e.executed == n && !e.succeeded

section Outputs

variable {made : List Emission} {e : Emission} {steps : List Step} {step : Step} {o : Nat × UInt8}
  {n : Nat}

/-- One step more. -/
lemma outputs_concat (steps : List Step) (step : Step) :
    outputs (steps ++ [step]) =
      outputs steps ++ if step.instruction = .output then [(steps.length, step.cell)] else [] := by
  rw [outputs, List.zipIdx_append, List.filterMap_append, Nat.zero_add]
  congr 1
  by_cases hi : step.instruction = .output <;> simp [hi]

/-- The bytes that a walk emits are those of its outputs. -/
lemma emitted_eq_map_outputs (steps : List Step) :
    emitted steps = (outputs steps).map Prod.snd := by
  induction steps using List.reverseRecOn with
  | nil => rfl
  | append_singleton steps step ih =>
    rw [outputs_concat, List.map_append, ← ih, emitted, List.flatMap_append,
      List.flatMap_singleton]
    by_cases hi : step.instruction = .output <;> simp [hi, emitted]

/-- An output of a walk lies in the walk. -/
lemma lt_length_of_mem_outputs (h : o ∈ outputs steps) : o.1 < steps.length := by
  obtain ⟨⟨step, n⟩, hmem, ho⟩ := List.mem_filterMap.mp h
  have hn := List.snd_lt_of_mem_zipIdx hmem
  dsimp only at ho
  split at ho <;> cases ho
  simpa using hn

/-- One attempt more. -/
lemma failures_concat (made : List Emission) (e : Emission) (n : Nat) :
    failures (made ++ [e]) n =
      failures made n + if e.executed = n ∧ e.succeeded = false then 1 else 0 := by
  rw [failures, List.countP_append, List.countP_singleton, failures]
  simp

/-- An attempt of another output does not count. -/
lemma failures_concat_of_ne (h : e.executed ≠ n) :
    failures (made ++ [e]) n = failures made n := by
  rw [failures_concat, if_neg fun hc => h hc.1, Nat.add_zero]

/-- An attempt that succeeds does not count. -/
lemma failures_concat_of_succeeded (h : e.succeeded = true) :
    failures (made ++ [e]) n = failures made n := by
  rw [failures_concat, if_neg (by simp [h]), Nat.add_zero]

/-- An output that has not been reached has not failed. -/
lemma failures_eq_zero (h : ∀ e ∈ made, e.executed < n) : failures made n = 0 := by
  refine List.countP_eq_zero.mpr fun e he => ?_
  have hlt := h e he
  simp only [Bool.and_eq_true, beq_iff_eq, not_and]
  omega

end Outputs

/-! ## The law of repetition -/

/-- The attempts that were made repeat the outputs of the walk `steps`, which leads to `m`. -/
structure Repeats (made : List Emission) (steps : List Step) (m : Machine) : Prop where
  /-- The bytes are those of the outputs, each as often as the output has failed and once more; and
  then that of the next output, as often as it has failed. -/
  bytes : made.map Emission.byte =
    (outputs steps).flatMap (fun o => List.replicate (failures made o.1 + 1) o.2) ++
      List.replicate (failures made steps.length) m.cell
  /-- If an output has failed behind the walk then it comes next. -/
  standing : failures made steps.length ≠ 0 → m.instruction? = some .output
  /-- No output has been attempted further on. -/
  reached : ∀ e ∈ made, e.executed ≤ steps.length

namespace Repeats

variable {made : List Emission} {steps : List Step} {m m' : Machine} {step : Step}

/-- Before the first step nothing has been attempted. -/
lemma nil (m : Machine) : Repeats [] [] m := ⟨rfl, fun h => absurd rfl h, by simp⟩

/-- The outputs of the walk are repeated as before when another output is attempted. -/
lemma flatMap_concat {byte : UInt8} {succeeded : Bool} :
    (outputs steps).flatMap (fun o =>
        List.replicate (failures (made ++ [⟨steps.length, byte, succeeded⟩]) o.1 + 1) o.2) =
      (outputs steps).flatMap fun o => List.replicate (failures made o.1 + 1) o.2 := by
  refine List.flatMap_congr fun o ho => ?_
  rw [failures_concat_of_ne (lt_length_of_mem_outputs ho).ne']

/-- **An attempt that fails** writes the byte of the next output once more. -/
theorem fails (h : Repeats made steps m) (hi : m.instruction? = some .output) :
    Repeats (made ++ [⟨steps.length, m.cell, false⟩]) steps m where
  bytes := by
    rw [List.map_append, h.bytes, flatMap_concat, failures_concat, if_pos ⟨rfl, rfl⟩,
      List.replicate_succ', List.append_assoc]
    rfl
  standing _ := hi
  reached e he := by
    rcases List.mem_append.mp he with he | he
    · exact h.reached e he
    · rw [List.mem_singleton.mp he]

/-- **An attempt that succeeds** writes the byte of the next output for the last time. -/
theorem succeeds (h : Repeats made steps m) (hi : step.instruction = .output)
    (hcell : step.cell = m.cell) :
    Repeats (made ++ [⟨steps.length, m.cell, true⟩]) (steps ++ [step]) m' := by
  have hreached : ∀ e ∈ made ++ [⟨steps.length, m.cell, true⟩],
      e.executed < (steps ++ [step]).length := by
    intro e he
    rw [List.length_append, List.length_singleton]
    rcases List.mem_append.mp he with he | he
    · exact Nat.lt_succ_of_le (h.reached e he)
    · rw [List.mem_singleton.mp he]
      exact Nat.lt_succ_self _
  have hnone := failures_eq_zero hreached
  refine ⟨?_, fun hne => absurd hnone hne, fun e he => (hreached e he).le⟩
  rw [hnone, outputs_concat, if_pos hi, List.flatMap_append, flatMap_concat, List.map_append,
    h.bytes, List.flatMap_singleton, failures_concat_of_succeeded rfl, List.replicate_succ', hcell]
  simp

/-- **An instruction that is no output** writes nothing. -/
theorem executes (h : Repeats made steps m) (hm : m.instruction? ≠ some .output)
    (hi : step.instruction ≠ .output) : Repeats made (steps ++ [step]) m' := by
  have hreached : ∀ e ∈ made, e.executed < (steps ++ [step]).length := by
    intro e he
    rw [List.length_append, List.length_singleton]
    exact Nat.lt_succ_of_le (h.reached e he)
  have hnone := failures_eq_zero hreached
  have hstanding : failures made steps.length = 0 := by
    by_contra hne
    exact hm (h.standing hne)
  refine ⟨?_, fun hne => absurd hnone hne, fun e he => (hreached e he).le⟩
  rw [hnone, outputs_concat, if_neg hi, h.bytes, hstanding]
  simp

/-- As many bytes have been written as there are repetitions. -/
lemma length_eq (h : Repeats made steps m) :
    made.length =
      ((outputs steps).map fun o => failures made o.1 + 1).sum + failures made steps.length := by
  have hlength := congrArg List.length h.bytes
  simpa [List.length_flatMap] using hlength

end Repeats

/-! ## Acts -/

namespace Machine

variable {m m' m₀ : Machine} {i : Instruction} {r : Except Fault Unit} {made more : List Emission}
  {steps : List Step}

/-- The attempt of an output that comes next. -/
lemma emissions_of_output (hf : m.finished = false) (hi : m.instruction? = some .output)
    (h : m.execute .output = (r, m')) : m.emissions = [⟨m.executed, m.cell, r.isOk⟩] := by
  have hr : m.emit.1 = r := congrArg Prod.fst h
  rw [emissions, if_pos ⟨hf, hi⟩, hr]

/-- **The sink receives the bytes of the attempts**, and nothing else. -/
theorem Acts.sink (h : Acts m more m') :
    ∃ calls, m'.output = m.output.after calls ∧ pushedBy calls = more.map Emission.byte := by
  cases h with
  | idle | quit => exact ⟨[], rfl, rfl⟩
  | finish hf hi h =>
    refine ⟨[.flush], ?_, rfl⟩
    have hm' := congrArg Prod.snd h
    simp only at hm'
    rw [← hm', Machine.finish]
    simp only [OutputSink.after, OutputSink.perform]
    rcases m.output.flush with ⟨cause | _, output⟩ <;> rfl
  | @execute _ i r hf hi h =>
    by_cases ho : i = .output
    · subst ho
      refine ⟨[.push m.cell], ?_, by rw [emissions_of_output hf hi h]; rfl⟩
      have hm' : m.emit.2 = m' := congrArg Prod.snd h
      rw [← hm', Machine.emit]
      simp only [OutputSink.after, OutputSink.perform]
      rcases m.output.push m.cell with ⟨cause | _, output⟩ <;> rfl
    · refine ⟨[], ?_, by rw [emissions_of_ne_output hi ho]; rfl⟩
      have houtput := output_execute m ho
      rw [h] at houtput
      exact houtput

/-- The machine `m` stands where the walk `steps` of the machine `reference` has led, to `m₀`. The
attempts that were made since `m` was the machine `start` repeat the outputs of this walk. -/
structure Retraces (start reference : Machine) (made : List Emission) (m : Machine)
    (steps : List Step) (m₀ : Machine) : Prop where
  placed : m.Placed
  sink : ∃ calls, m.output = start.output.after calls ∧
    pushedBy calls = made.map Emission.byte
  walk : Walk reference steps m₀
  running : m₀.finished = false
  reliable : m₀.output.writer.Reliable
  counted : steps.length = m.executed
  repeats : Repeats made steps m₀
  /-- Unless the machine has finished, it is at the same point of the computation, or stands at a
  move that is refused for good. -/
  standing : m.finished = false → SameComputation m m₀ ∨ ∃ move limit, m.Exhausted move limit

namespace Retraces

variable {start reference : Machine}

/-- One sequence of bytes behind another. -/
lemma sink_append (h : Retraces start reference made m steps m₀) (hact : Acts m more m') :
    ∃ calls, m'.output = start.output.after calls ∧
      pushedBy calls = (made ++ more).map Emission.byte := by
  obtain ⟨calls, houtput, hpushed⟩ := h.sink
  obtain ⟨calls', houtput', hpushed'⟩ := hact.sink
  refine ⟨calls ++ calls', ?_, ?_⟩
  · rw [OutputSink.after_append, ← houtput, houtput']
  · rw [pushedBy, List.flatMap_append, List.map_append, ← hpushed, ← hpushed']
    rfl

/-- **An instruction that succeeds** is made on both machines. -/
lemma execute_ok (h : Retraces start reference made m steps m₀) (hsame : SameComputation m m₀)
    (hf : m.finished = false) (hi : m.instruction? = some i) (he : m.execute i = (.ok (), m')) :
    ∃ steps' m₀', Retraces start reference (made ++ m.emissions) m' steps' m₀' := by
  obtain ⟨m₀', he₀, hreliable⟩ := hsame.exists_execute h.reliable he
  have hi₀ : m₀.instruction? = some i := hsame.instruction?.trans hi
  have hnext : m₀.next = (.ok ⟨m₀.pc, i, m₀'.pc, m₀'.dp, m₀'.cell⟩, m₀') :=
    next_eq_ok_iff.mpr ⟨h.running, i, hi₀, he₀, rfl⟩
  refine ⟨_, m₀',
    { placed := (travels_of_ok h.placed hi he).placed
      sink := h.sink_append (.execute hf hi he)
      walk := h.walk.append (.single hnext)
      running := (next_frame hnext).2.1.trans h.running
      reliable := hreliable
      counted := ?_
      repeats := ?_
      standing := fun _ => Or.inl (hsame.execute_of_ok he he₀) }⟩
  · rw [List.length_append, List.length_singleton, h.counted, (counted_of_ok he).2]
  · by_cases ho : i = .output
    · subst ho
      rw [emissions_of_output hf hi he, ← h.counted, ← hsame.cell]
      exact h.repeats.succeeds rfl (emit_of_ok he₀).cell
    · rw [emissions_of_ne_output hi ho, List.append_nil]
      exact h.repeats.executes (by simpa [hi₀] using ho) ho

/-- **An instruction that fails** leaves the machine where it stands. If it is an output it has been
attempted once more, and else the machine stands at a move that is refused for good. -/
lemma execute_error (h : Retraces start reference made m steps m₀) (hsame : SameComputation m m₀)
    (hf : m.finished = false) (hi : m.instruction? = some i) {fault : Fault}
    (he : m.execute i = (.error fault, m')) :
    Retraces start reference (made ++ m.emissions) m' steps m₀ := by
  obtain ⟨hkept, hfailure⟩ := h.placed.failure hi he
  have hmove : ∀ {address}, i ≠ .output → MoveRefused m address fault m' →
      Repeats (made ++ m.emissions) steps m₀ ∧ ∃ move limit, m'.Exhausted move limit := by
    intro address ho hrefused
    obtain ⟨limit, hlimit, rfl⟩ := hrefused.fault
    have hi' : m'.instruction? = some i := by
      rw [instruction?, hkept.program, hkept.pc]
      exact hi
    have hstuck := stuck_of_outOfCells h.placed hi he
    refine ⟨?_, i, limit, .of_stuck hstuck (hkept.finished.trans hf) hi' ?_⟩
    · rw [emissions_of_ne_output hi ho, List.append_nil]
      exact h.repeats
    · rw [hkept.tape, hlimit]
  have hend : Repeats (made ++ m.emissions) steps m₀ ∧
      (SameComputation m' m₀ ∨ ∃ move limit, m'.Exhausted move limit) := by
    rcases hfailure with ⟨rfl, hrefused⟩ | ⟨rfl, hrefused⟩ | ⟨rfl, houtput⟩
    · exact (hmove (by simp) hrefused).imp_right Or.inr
    · exact (hmove (by simp) hrefused).imp_right Or.inr
    · rw [emissions_of_output hf hi he, ← h.counted, ← hsame.cell]
      have hkeeps : SameComputation m m' :=
        ⟨hkept.program, hkept.pc, houtput.dp, hkept.tape, hkept.input, hkept.executed⟩
      exact ⟨h.repeats.fails (hsame.instruction?.trans hi), Or.inl (hkeeps.symm.trans hsame)⟩
  exact
    { placed := (travels_of_error h.placed hi he).placed
      sink := h.sink_append (.execute hf hi he)
      walk := h.walk
      running := h.running
      reliable := h.reliable
      counted := h.counted.trans hkept.executed.symm
      repeats := hend.1
      standing := fun _ => hend.2 }

/-- A machine that stands at a refused move is refused it again, and attempts no output. -/
lemma execute_exhausted (h : Retraces start reference made m steps m₀) {move : Instruction}
    {limit : Nat} (hexhausted : m.Exhausted move limit) (hi : m.instruction? = some i)
    (he : m.execute i = (r, m')) : Retraces start reference (made ++ m.emissions) m' steps m₀ := by
  obtain rfl : move = i := Option.some.inj (hexhausted.next.symm.trans hi)
  have ho : move ≠ .output := by
    rcases hexhausted.beyond with ⟨rfl, -⟩ | ⟨rfl, -⟩ <;> simp
  have hact := Acts.execute hexhausted.running hi he
  have hsink := h.sink_append hact
  rw [hexhausted.execute] at he
  cases he
  rw [emissions_of_ne_output hi ho, List.append_nil] at hsink ⊢
  exact
    { h with
      placed := (travels_of_error h.placed hi hexhausted.execute).placed
      sink := hsink
      counted := h.counted
      standing := fun _ => Or.inr ⟨_, _, hexhausted.drift_stride⟩ }

/-- **One act more**: the machine has retraced the same walk, or one that is longer by a step. -/
theorem act (h : Retraces start reference made m steps m₀) (hact : Acts m more m') :
    ∃ steps' m₀', Retraces start reference (made ++ more) m' steps' m₀' := by
  have hsink := h.sink_append hact
  cases hact with
  | idle =>
    rw [List.append_nil]
    exact ⟨steps, m₀, h⟩
  | quit =>
    have htravels : Travels m { m with finished := true } ∅ False :=
      .of_eq h.placed rfl rfl rfl rfl
    rw [List.append_nil]
    exact ⟨steps, m₀, { h with placed := htravels.placed, standing := fun hf => by cases hf }⟩
  | finish hf hi hfinish =>
    rw [List.append_nil] at hsink ⊢
    obtain ⟨hkeeps, -⟩ := sameComputation_of_finish hfinish
    refine ⟨steps, m₀,
      { h with
        placed := (travels_of_finish h.placed hfinish).placed
        sink := hsink
        counted := h.counted.trans hkeeps.executed.symm
        standing := fun _ => ?_ }⟩
    rcases h.standing hf with hsame | ⟨move, limit, hexhausted⟩
    · exact Or.inl (hkeeps.symm.trans hsame)
    · rw [hexhausted.next] at hi
      cases hi
  | @execute _ i r hf hi he =>
    rcases h.standing hf with hsame | ⟨move, limit, hexhausted⟩
    · cases r with
      | ok _ => exact h.execute_ok hsame hf hi he
      | error fault => exact ⟨steps, m₀, h.execute_error hsame hf hi he⟩
    · exact ⟨steps, m₀, h.execute_exhausted hexhausted hi he⟩

end Retraces

/-- At the start of a program nothing has been attempted. -/
lemma retraces_start (program : Program) (config : Config) (reader : Reader) (writer : Writer) :
    Retraces (.start program config reader writer) (reference program reader config.tapeLimit) []
      (.start program config reader writer) [] (reference program reader config.tapeLimit) where
  placed := (Calls.placed_start program config reader writer).2
  sink := ⟨[], rfl, rfl⟩
  walk := .nil _
  running := rfl
  reliable := ⟨rfl, List.forall_mem_nil _, List.forall_mem_nil _⟩
  counted := rfl
  repeats := .nil _
  standing _ := Or.inl ⟨rfl, rfl, rfl, rfl, rfl, rfl⟩

end Machine

/-! ## Calls -/

/-- The law of repetition. The attempts `made` of outputs have led from the machine `start` to the
machine `m`. The machine `reference` has a writer that never fails; the steps `steps` have led it to
the machine `m₀`. -/
structure OutputRepeated (start reference : Machine) (made : List Emission) (m : Machine)
    (steps : List Step) (m₀ : Machine) : Prop where
  /-- The machine with the writer that never fails has made a walk. -/
  walk : Walk reference steps m₀
  /-- It has executed as many instructions. -/
  executed : steps.length = m.executed
  /-- The bytes of the attempts are those that it has written, each as often as its output has
  failed and once more; and then its current cell, as often as its next instruction has failed. -/
  bytes : made.map Emission.byte =
    (outputs steps).flatMap (fun o => List.replicate (failures made o.1 + 1) o.2) ++
      List.replicate (failures made m.executed) m₀.cell
  /-- The outputs of the walk are what it has written. -/
  written : (outputs steps).map Prod.snd = emitted steps
  /-- If the next instruction has failed then it is an output, which writes the current cell. -/
  standing : failures made m.executed ≠ 0 →
    ∃ step m₀', m₀.next = (.ok step, m₀') ∧ emitted [step] = [m₀.cell]
  /-- The bytes of the attempts are those that have been pushed onto the sink. -/
  sink : ∃ calls, m.output = start.output.after calls ∧ pushedBy calls = made.map Emission.byte
  /-- All of them have been counted. -/
  counted : m.stats.outputBytes =
    ((outputs steps).map fun o => failures made o.1 + 1).sum + failures made m.executed

/-- A machine that retraces a walk obeys the law of repetition. -/
lemma Machine.Retraces.outputRepeated {program : Program} {config : Config} {reader : Reader}
    {writer : Writer} {reference m m₀ : Machine} {made : List Emission} {steps : List Step}
    (h : Retraces (.start program config reader writer) reference made m steps m₀) :
    OutputRepeated (.start program config reader writer) reference made m steps m₀ := by
  have hrepeats := h.repeats
  refine
    { walk := h.walk
      executed := h.counted
      bytes := h.counted ▸ hrepeats.bytes
      written := (emitted_eq_map_outputs steps).symm
      standing := fun hne => ?_
      sink := h.sink
      counted := ?_ }
  · have hi := hrepeats.standing (h.counted ▸ hne)
    obtain ⟨output, hpush, -⟩ := OutputSink.exists_push h.reliable m₀.cell
    have he : m₀.execute .output = (.ok (), { m₀ with output }.advanceFrom m₀.pc) := by
      simp only [execute, emit, hpush]
    exact ⟨_, _, next_eq_ok_iff.mpr ⟨h.running, _, hi, he, rfl⟩, rfl⟩
  · obtain ⟨calls, houtput, hpushed⟩ := h.sink
    have hcounted := ((OutputSink.Accounts.fresh writer config.threshold).after calls).counted
    rw [List.nil_append, hpushed, List.length_map, hrepeats.length_eq, h.counted] at hcounted
    exact (congrArg OutputSink.written houtput).trans hcounted

namespace Calls

/-- **Retrying repeats output.** Whatever calls were made from the start of a program, over whatever
writer, the attempts of its outputs have been recorded; and at every moment in the course of the
next call the law of repetition holds.

**Proof sketch.** Every act of a call keeps the machine on the walk of the one with the writer that
never fails, or at a move that is refused for good. What every act preserves holds at every moment.
-/
theorem retrying_repeats_output {program : Program} {config : Config} {reader : Reader}
    {writer : Writer} {calls : List (Call × Returned)} {m₁ : Machine}
    (h : Calls (.start program config reader writer) calls m₁) :
    (∃ earlier, History (.start program config reader writer) calls earlier m₁) ∧
    ∀ earlier, History (.start program config reader writer) calls earlier m₁ →
      ∀ (call : Call) later status m, call.Course m₁ later status m →
        ∃ steps m₀, OutputRepeated (.start program config reader writer)
          (reference program reader config.tapeLimit) (earlier ++ later) m steps m₀ := by
  refine ⟨iff_history.mp h, fun earlier hhistory call later status m hcourse => ?_⟩
  have hacts : ∀ made more m m',
      (∃ steps m₀, Retraces (.start program config reader writer)
        (reference program reader config.tapeLimit) made m steps m₀) → Acts m more m' →
      ∃ steps m₀, Retraces (.start program config reader writer)
        (reference program reader config.tapeLimit) (made ++ more) m' steps m₀ := by
    rintro made more m m' ⟨steps, m₀, hm⟩ hact
    exact hm.act hact
  have hbefore := hhistory.preserves hacts ⟨_, _, retraces_start program config reader writer⟩
  obtain ⟨steps, m₀, hretraces⟩ := hcourse.preserves hacts hbefore
  exact ⟨steps, m₀, hretraces.outputRepeated⟩

/-- The writer of the program `.` is broken twice. A single step fails, and so does the run that
follows. Once the next step has succeeded the byte has been written three times. -/
theorem retrying_repeats_output_of_broken :
    ∃ (program : Program) (writer : Writer) (calls : List (Call × Returned)) (m₁ m : Machine)
      (made : List Emission) (steps : List Step) (m₀ : Machine),
      program.instructions = #[.output] ∧
      Calls (.start program { threshold := 1 } (.ofBytes []) writer) calls m₁ ∧
      calls.map Prod.snd = [.failed (.io .brokenSink), .failed (.io .brokenSink)] ∧
      m₁.next = (.ok ⟨0, .output, 1, 0, 0⟩, m) ∧
      OutputRepeated (.start program { threshold := 1 } (.ofBytes []) writer)
        (reference program (.ofBytes []) none) made m steps m₀ ∧
      made.map Emission.byte = [0, 0, 0] ∧ failures made 0 = 2 := by
  let start : Machine := .start ⟨#[.output], ⟨#[0]⟩, 0, rfl⟩ { threshold := 1 } (.ofBytes [])
    { plan := [.broken, .broken] }
  let m₁ : Machine := (start.execute .output).2
  let m₂ : Machine := (m₁.execute .output).2
  have hfirst : start.next = (.error (.io .brokenSink), m₁) := rfl
  have hcause : (m₁.execute .output).1 = .error (.io .brokenSink) := by decide +kernel
  have hsecond : m₁.advance = .ended (.error (.io .brokenSink)) m₂ :=
    advance_eq_ended_iff.mpr (Or.inr ⟨.output, _, rfl, Prod.ext hcause rfl, rfl⟩)
  have hreport : m₂.next.1 = .ok ⟨0, .output, 1, 0, 0⟩ := by decide +kernel
  have hthird : m₂.next = (.ok ⟨0, .output, 1, 0, 0⟩, m₂.next.2) := by rw [← hreport]
  have hhistory : History start [(.next, .failed (.io .brokenSink)),
      (.run, .failed (.io .brokenSink))] _ m₂ :=
    .cons (.stepFails hfirst) (.cons (.runFails rfl (.refl _) hsecond) (.nil _))
  have hmade : start.emissions ++ ([] ++ m₁.emissions ++ []) ++ m₂.emissions =
      [⟨0, 0, false⟩, ⟨0, 0, false⟩, ⟨0, 0, true⟩] := by decide +kernel
  have hcalls := iff_history.mpr ⟨_, hhistory⟩
  obtain ⟨-, hlaw⟩ := retrying_repeats_output hcalls
  obtain ⟨steps, m₀, hrepeated⟩ := hlaw _ hhistory .next _ _ _ (.step hthird)
  rw [hmade] at hrepeated
  exact ⟨start.program, { plan := [.broken, .broken] }, _, m₂, m₂.next.2, _, steps, m₀, rfl, hcalls,
    rfl, hthird, hrepeated, rfl, rfl⟩

end Calls

end TapeMachine

import Mathlib.Tactic
import TapeMachine.Proofs.Debug.Session

/-!
# Ways of driving a machine

A machine is driven by calls: single steps, whole runs and debug sessions, in any order. Every call
goes on along the one path of single steps, and then does at most one thing more, which ends it.

## Main definitions

* `TapeMachine.Call`, `TapeMachine.Returned` — the calls, and what they return.
* `TapeMachine.Call.Returns` — a call returns, and leaves a machine.
* `TapeMachine.Call.Executes` — an instruction is executed in the course of a call.
* `TapeMachine.Calls` — calls one after another.
* `TapeMachine.Machine.Concludes` — what a call does in the end.

## Main results

* `TapeMachine.Call.Returns.exists_walk` — every call is a walk and what concludes it.
* `TapeMachine.Call.Returns.unique` — a call on a machine has one outcome.
* `TapeMachine.driving_does_not_matter` — a debug session that its debugger lets go on is a run, and
  whatever calls there are, they lead where single steps lead.
-/

set_option autoImplicit false

namespace TapeMachine

/-! ## Calls -/

/-- A call on a machine. -/
inductive Call
  /-- Execute the next instruction. -/
  | next
  /-- Run the program to its end. -/
  | run
  /-- Execute the program under a debugger. -/
  | debug (debugger : Debugger)

/-- What a call returns. -/
inductive Returned
  /-- The report of an instruction. -/
  | step (report : Step)
  /-- The program has been executed to its end. -/
  | completed (stats : Stats)
  /-- The operator has ended the session. -/
  | quit
  /-- The machine could not go on. -/
  | failed (fault : Fault)
  /-- Reading the commands, or writing to the screen, failed. -/
  | lost (cause : IoError)

/-- Whether the program has failed: for want of cells, or because its output could not be
written. -/
def Returned.isProgramFault : Returned → Bool
  | failed (.outOfCells _) | failed (.io _) => true
  | _ => false

/-- Whether a failure of the next step of a session is the operator's: the session waits for a line,
or it executes an instruction, which succeeds, and reports it. -/
def Session.operatorsTurn (s : Session) : Bool :=
  match s.phase, s.machine.next with
  | .asking _, _ => true
  | .executing _, (.ok _, _) => true
  | .executing _, (.error _, _) => false

/-- What a session returns whose next step ends it with a result. -/
def Session.returned (s : Session) : Except Fault Exit → Returned
  | .ok (.completed stats) => .completed stats
  | .ok .quit => .quit
  | .error (.io cause) => if s.operatorsTurn then .lost cause else .failed (.io cause)
  | .error fault => .failed fault

/-- A call on a machine returns, and leaves a machine. A run and a debug session return only if they
end. -/
inductive Call.Returns : Call → Machine → Returned → Machine → Prop
  | step {m m' : Machine} {report : Step} (h : m.next = (.ok report, m')) :
    Returns next m (.step report) m'
  | stepFails {m m' : Machine} {fault : Fault} (h : m.next = (.error fault, m')) :
    Returns next m (.failed fault) m'
  | run {m m' : Machine} {stats : Stats} (h : m.RunsTo (.ok stats) m') :
    Returns run m (.completed stats) m'
  | runFails {m m' : Machine} {fault : Fault} (h : m.RunsTo (.error fault) m') :
    Returns run m (.failed fault) m'
  | debug {m : Machine} {d : Debugger} {s s' : Session} {r : Except Fault Exit}
    (h : Progress.Reaches Session.step (.start m d .separate) s) (hend : s.step = .ended r s') :
    Returns (debug d) m (s.returned r) s'.machine

/-- The report of the instruction that the next step of a session executes, if it executes one. -/
def Session.report? (s : Session) : Option Step :=
  match s.phase, s.machine.next with
  | .executing _, (.ok report, _) => some report
  | _, _ => none

/-- In the course of a call on a machine an instruction is executed, with this report. -/
inductive Call.Executes : Call → Machine → Step → Prop
  | next {m m' : Machine} {report : Step} (h : m.next = (.ok report, m')) : Executes next m report
  | run {m m₁ m' : Machine} {report : Step} (hf : m.finished = false)
    (hreach : Progress.Reaches Machine.advance m m₁) (h : m₁.next = (.ok report, m')) :
    Executes run m report
  | debug {m : Machine} {d : Debugger} {s : Session} {report : Step}
    (hreach : Progress.Reaches Session.step (.start m d .separate) s)
    (h : s.report? = some report) : Executes (debug d) m report

/-- Calls one after another, each with what it returns. -/
inductive Calls : Machine → List (Call × Returned) → Machine → Prop
  | nil (m : Machine) : Calls m [] m
  | cons {m m₁ m' : Machine} {call : Call} {returned : Returned} {calls : List (Call × Returned)}
    (h : call.Returns m returned m₁) (rest : Calls m₁ calls m') :
    Calls m ((call, returned) :: calls) m'

namespace Machine

/-- What a call does to a machine in the end, behind the instructions that succeed. -/
inductive Concludes : Machine → Returned → Machine → Prop
  /-- Nothing: the instruction that was asked for has been executed. -/
  | step (m : Machine) (report : Step) : Concludes m (.step report) m
  /-- Nothing: the failure does not concern the machine. -/
  | lost (m : Machine) (cause : IoError) : Concludes m (.lost cause) m
  /-- Nothing: there is nothing left to execute. -/
  | nothing {m : Machine} (h : m.finished = true ∨ m.instruction? = none) :
    Concludes m (.failed .alreadyFinished) m
  /-- An instruction fails. -/
  | fails {m m' : Machine} {i : Instruction} {fault : Fault} (hf : m.finished = false)
    (hi : m.instruction? = some i) (h : m.execute i = (.error fault, m')) :
    Concludes m (.failed fault) m'
  /-- At the end of the program the pending output cannot be handed over. -/
  | flushFails {m m' : Machine} {fault : Fault} (hf : m.finished = false)
    (hi : m.instruction? = none) (h : m.finish = (.error fault, m')) :
    Concludes m (.failed fault) m'
  /-- At the end of the program the run is finished. -/
  | completed {m m' : Machine} {stats : Stats} (hf : m.finished = false)
    (hi : m.instruction? = none) (h : m.finish = (.ok stats, m')) :
    Concludes m (.completed stats) m'
  /-- The machine is marked as finished where it stands. -/
  | quit {m : Machine} (hf : m.finished = false) : Concludes m .quit { m with finished := true }

variable {m m' : Machine}

/-- A run concludes where it ends. -/
lemma concludes_of_ended (hf : m.finished = false) {r : Except Fault Stats}
    (h : m.advance = .ended r m') :
    (∃ stats, r = .ok stats ∧ Concludes m (.completed stats) m') ∨
      ∃ fault, r = .error fault ∧ Concludes m (.failed fault) m' := by
  rcases advance_eq_ended_iff.mp h with ⟨hi, hfinish⟩ | ⟨i, fault, hi, he, rfl⟩
  · cases r with
    | ok stats => exact Or.inl ⟨stats, rfl, .completed hf hi hfinish⟩
    | error fault => exact Or.inr ⟨fault, rfl, .flushFails hf hi hfinish⟩
  · exact Or.inr ⟨fault, rfl, .fails hf hi he⟩

end Machine

open Machine

namespace Session

variable {s s' : Session}

/-- A session goes on only while the machine has not finished. -/
lemma finished_of_running (h : s.step = .running s') : s.machine.finished = false := by
  cases hf : s.machine.finished with
  | false => rfl
  | true =>
    simp only [step, hf, if_true] at h
    cases h

/-- A session that executes an instruction reports it. -/
lemma report?_of_next {suspending : Bool} (hp : s.phase = .executing suspending) {report : Step}
    {m : Machine} (h : s.machine.next = (.ok report, m)) : s.report? = some report := by
  simp only [report?, hp, h]

/-- A session that waits for the operator executes nothing. -/
lemma report?_of_asking {report : Step} (hp : s.phase = .asking report) : s.report? = none := by
  simp only [report?, hp]

/-- **What a step of a session does to the machine** if the session goes on: nothing, or a single
step. -/
theorem machine_of_running (hw : s.wiring = .separate) (h : s.step = .running s') :
    s'.wiring = .separate ∧ Walk s.machine s.report?.toList s'.machine := by
  have hf := finished_of_running h
  cases hp : s.phase with
  | executing suspending =>
    rw [step_of_executing hf hp] at h
    cases ha : s.machine.advance with
    | running m =>
      obtain ⟨report, hnext⟩ := (advance_eq_running_iff_next hf).mp ha
      rw [report?_of_next hp hnext]
      rw [advance_of_next hnext] at h
      split at h
      · split at h
        · cases h
        · cases h
          exact ⟨hw, .single hnext⟩
      · cases h
        exact ⟨hw, .single hnext⟩
    | ended r m =>
      rw [advance_of_ended hf ha] at h
      cases h
  | asking report =>
    rw [step_of_asking hf hw hp] at h
    rw [report?_of_asking hp]
    split at h
    · cases h
    · cases h
      exact ⟨hw, .nil _⟩
    · rename_i how d _
      cases how <;> cases h <;> exact ⟨hw, .nil _⟩

/-- Where a run would end a session executes nothing, and it is not the operator's turn. -/
lemma report?_of_ended (hf : s.machine.finished = false) {suspending : Bool}
    (hp : s.phase = .executing suspending) {r : Except Fault Stats} {m : Machine}
    (h : s.machine.advance = .ended r m) : s.report? = none ∧ s.operatorsTurn = false := by
  rcases hnext : s.machine.next with ⟨_ | report, m₁⟩
  · simp only [report?, operatorsTurn, hp, hnext, and_self]
  · rw [(advance_eq_running_iff_next hf).mpr ⟨report, hnext⟩] at h
    cases h

/-- **What a step of a session does to the machine** if it ends the session: a single step if only
its report fails, or else nothing but what concludes the call. -/
theorem exists_walk_of_ended (hw : s.wiring = .separate) {r : Except Fault Exit}
    (h : s.step = .ended r s') :
    ∃ m₁, Walk s.machine s.report?.toList m₁ ∧ Concludes m₁ (s.returned r) s'.machine := by
  cases hf : s.machine.finished with
  | true =>
    have hnone : s.report? = none := by
      simp only [report?, Machine.next, hf]
      cases s.phase <;> rfl
    simp only [step, hf, if_true] at h
    cases h
    rw [hnone]
    exact ⟨_, .nil _, .nothing (Or.inl hf)⟩
  | false =>
    cases hp : s.phase with
    | executing suspending =>
      rw [step_of_executing hf hp] at h
      cases ha : s.machine.advance with
      | running m =>
        obtain ⟨report, hnext⟩ := (advance_eq_running_iff_next hf).mp ha
        rw [report?_of_next hp hnext]
        rw [advance_of_next hnext] at h
        split at h
        · split at h
          · cases h
            have hturn : s.operatorsTurn = true := by simp only [operatorsTurn, hp, hnext]
            simp only [returned, hturn, if_true]
            exact ⟨_, .single hnext, .lost _ _⟩
          · cases h
        · cases h
      | ended r₀ m =>
        obtain ⟨hnone, hturn⟩ := report?_of_ended hf hp ha
        rw [advance_of_ended hf ha] at h
        cases h
        rw [hnone]
        refine ⟨_, .nil _, ?_⟩
        rcases concludes_of_ended hf ha with ⟨stats, rfl, hc⟩ | ⟨fault, rfl, hc⟩
        · exact hc
        · cases fault <;> simpa [Except.map, returned, hturn] using hc
    | asking report =>
      rw [step_of_asking hf hw hp] at h
      rw [report?_of_asking hp]
      refine ⟨_, .nil _, ?_⟩
      split at h
      · cases h
        have hturn : s.operatorsTurn = true := by simp only [operatorsTurn, hp]
        simp only [returned, hturn, if_true]
        exact .lost _ _
      · cases h
      · rename_i how d _
        cases how <;> cases h
        exact .quit hf

/-- **A session that ends** has made a walk, whose steps are the instructions that were executed,
and what concludes it. -/
theorem exists_walk_of_reaches (hw : s.wiring = .separate)
    (h : Progress.Reaches Session.step s s') {r : Except Fault Exit} {t : Session}
    (hend : s'.step = .ended r t) :
    ∃ steps m₁, Walk s.machine steps m₁ ∧ Concludes m₁ (s'.returned r) t.machine ∧
      ∀ report, report ∈ steps ↔
        ∃ s₁, Progress.Reaches Session.step s s₁ ∧ s₁.report? = some report := by
  induction h with
  | refl s =>
    obtain ⟨m₁, hwalk, hc⟩ := exists_walk_of_ended hw hend
    refine ⟨_, m₁, hwalk, hc, fun report => ?_⟩
    simp only [Progress.reaches_iff_of_ended hend, exists_eq_left, Option.mem_toList]
  | @running s s₁ s' h _ ih =>
    obtain ⟨hw₁, hfirst⟩ := machine_of_running hw h
    obtain ⟨steps, m₁, hwalk, hc, hmem⟩ := ih hw₁ hend
    refine ⟨_, m₁, hfirst.append hwalk, hc, fun report => ?_⟩
    simp only [List.mem_append, hmem, Progress.reaches_iff_of_running h, or_and_right, exists_or,
      exists_eq_left, Option.mem_toList]

end Session

/-- A run of a machine that has not finished executes what can be executed behind some walk. -/
lemma Call.executes_run_iff {m : Machine} (hf : m.finished = false) {report : Step} :
    Call.run.Executes m report ↔
      ∃ steps m₁ m', Walk m steps m₁ ∧ m₁.next = (.ok report, m') := by
  constructor
  · rintro (_ | ⟨-, hreach, hnext⟩)
    obtain ⟨steps, hw⟩ := exists_walk_of_reaches hf hreach
    exact ⟨steps, _, _, hw, hnext⟩
  · rintro ⟨steps, m₁, m', hw, hnext⟩
    exact .run hf (hw.reaches hf) hnext

/-- A run that ends is a walk, whose steps are the instructions that were executed, and what
concludes it. -/
lemma Machine.RunsTo.exists_walk {m m' : Machine} {r : Except Fault Stats} (h : m.RunsTo r m') :
    ∃ steps m₁, Walk m steps m₁ ∧
      ((∃ stats, r = .ok stats ∧ Concludes m₁ (.completed stats) m') ∨
        ∃ fault, r = .error fault ∧ Concludes m₁ (.failed fault) m') ∧
      ∀ report, report ∈ steps ↔ Call.run.Executes m report := by
  cases hf : m.finished with
  | false =>
    obtain ⟨steps, m₁, hw, hend⟩ := (runsTo_iff_walk hf).mp h
    refine ⟨steps, m₁, hw, concludes_of_ended (hw.frame.2.trans hf) hend, fun report => ?_⟩
    rw [hw.mem_iff_of_ended hend, Call.executes_run_iff hf]
  | true =>
    obtain ⟨fuel, hfuel⟩ := h
    simp only [Machine.run, hf, if_true, Option.some.injEq, Prod.mk.injEq] at hfuel
    obtain ⟨rfl, rfl⟩ := hfuel
    refine ⟨[], m, .nil m, Or.inr ⟨_, rfl, .nothing (Or.inl hf)⟩, fun report => ?_⟩
    refine iff_of_false List.not_mem_nil ?_
    rintro (_ | ⟨hf', -, -⟩)
    rw [hf] at hf'
    cases hf'

/-- **Every call is a walk and what concludes it.** The steps of the walk are the instructions that
are executed in the course of the call. -/
theorem Call.Returns.exists_walk {call : Call} {m m' : Machine} {returned : Returned}
    (h : call.Returns m returned m') :
    ∃ steps m₁, Walk m steps m₁ ∧ Concludes m₁ returned m' ∧
      ∀ report, report ∈ steps ↔ call.Executes m report := by
  cases h with
  | @step _ _ report h =>
    refine ⟨_, m', .single h, .step _ _, fun report' => ?_⟩
    rw [List.mem_singleton]
    constructor
    · rintro rfl
      exact .next h
    · rintro ⟨h'⟩
      rw [h] at h'
      cases h'
      rfl
  | stepFails h =>
    have hnone : ∀ report, report ∈ ([] : List Step) ↔ Call.next.Executes m report := by
      refine fun report => iff_of_false List.not_mem_nil ?_
      rintro ⟨h'⟩
      rw [h] at h'
      cases h'
    rcases next_eq_error_iff.mp h with ⟨hend, rfl, rfl⟩ | ⟨hf, i, hi, he⟩
    · exact ⟨[], _, .nil _, .nothing hend, hnone⟩
    · exact ⟨[], m, .nil m, .fails hf hi he, hnone⟩
  | run h =>
    obtain ⟨steps, m₁, hw, ⟨stats, hok, hc⟩ | ⟨fault, herror, -⟩, hmem⟩ := h.exists_walk
    · cases hok
      exact ⟨steps, m₁, hw, hc, hmem⟩
    · cases herror
  | runFails h =>
    obtain ⟨steps, m₁, hw, ⟨stats, hok, -⟩ | ⟨fault, herror, hc⟩, hmem⟩ := h.exists_walk
    · cases hok
    · cases herror
      exact ⟨steps, m₁, hw, hc, hmem⟩
  | debug h hend =>
    obtain ⟨steps, m₁, hw, hc, hmem⟩ := Session.exists_walk_of_reaches rfl h hend
    refine ⟨steps, m₁, hw, hc, fun report => (hmem report).trans ?_⟩
    constructor
    · rintro ⟨s₁, hreach, hreport⟩
      exact .debug hreach hreport
    · rintro (_ | _ | ⟨hreach, hreport⟩)
      exact ⟨_, hreach, hreport⟩

/-- **A call on a machine has one outcome.** -/
theorem Call.Returns.unique {call : Call} {m m₁ m₂ : Machine} {returned returned' : Returned}
    (h : call.Returns m returned m₁) (h' : call.Returns m returned' m₂) :
    returned = returned' ∧ m₁ = m₂ := by
  cases h with
  | step h | stepFails h =>
    cases h' with
    | step h' | stepFails h' =>
      rw [h] at h'
      cases h' <;> exact ⟨rfl, rfl⟩
  | run h | runFails h =>
    cases h' with
    | run h' | runFails h' =>
      obtain ⟨heq, rfl⟩ := h.unique h'
      cases heq <;> exact ⟨rfl, rfl⟩
  | debug h hend =>
    cases h' with
    | debug h' hend' =>
      obtain rfl := h.unique hend h' hend'
      rw [hend] at hend'
      cases hend'
      exact ⟨rfl, rfl⟩

/-- A debug session returns exactly if it ends. -/
lemma Call.exists_returns_debug_iff {m m' : Machine} {d : Debugger} :
    (∃ returned, (Call.debug d).Returns m returned m') ↔
      ∃ r s', (Session.start m d .separate).RunsTo r s' ∧ s'.machine = m' := by
  simp only [Session.runsTo_iff_halts, Progress.halts_iff_reaches]
  constructor
  · rintro ⟨returned, h⟩
    cases h with
    | debug h hend => exact ⟨_, _, ⟨_, h, hend⟩, rfl⟩
  · rintro ⟨r, s', ⟨s, h, hend⟩, rfl⟩
    exact ⟨_, .debug h hend⟩

/-! ## Sequences of calls -/

/-- Some call has executed the program to its end. -/
def HasCompleted (calls : List (Call × Returned)) : Prop :=
  ∃ call stats, (call, Returned.completed stats) ∈ calls

/-- A call that does not execute the program to its end does not change whether some call does. -/
lemma hasCompleted_cons {call : Call} {returned : Returned} {calls : List (Call × Returned)}
    (h : ∀ stats, returned ≠ .completed stats) :
    HasCompleted ((call, returned) :: calls) ↔ HasCompleted calls := by
  constructor
  · rintro ⟨call', stats, hmem⟩
    rcases List.mem_cons.mp hmem with heq | hmem
    · exact absurd (Prod.mk.inj heq).2.symm (h stats)
    · exact ⟨call', stats, hmem⟩
  · rintro ⟨call', stats, hmem⟩
    exact ⟨call', stats, List.mem_cons_of_mem _ hmem⟩

namespace Machine

variable {m m' m₁ : Machine}

/-- Nothing is executed on a machine that has finished. -/
lemma Walk.eq_of_finished {steps : List Step} (h : Walk m steps m') (hf : m.finished = true) :
    m' = m := by
  cases h with
  | nil => rfl
  | cons hnext _ =>
    have hf' := (next_eq_ok_iff.mp hnext).1
    rw [hf] at hf'
    cases hf'

/-- An instruction that fails is a fault of the program. -/
lemma isProgramFault_of_execute {i : Instruction} {fault : Fault}
    (h : m.execute i = (.error fault, m')) : (Returned.failed fault).isProgramFault = true := by
  cases i with
  | loopOpen | loopClose => cases h
  | _ =>
    simp only [execute, moveTo, updateCell, emit, receive] at h
    split at h <;> cases h
    rfl

/-- A final hand-over that fails is a fault of the program. -/
lemma isProgramFault_of_finish {fault : Fault} (h : m.finish = (.error fault, m')) :
    (Returned.failed fault).isProgramFault = true := by
  unfold finish at h
  split at h <;> cases h
  rfl

/-- A machine that was driven by calls stands at a machine of the path of single steps: all that
concerns the program is equal, and the sinks differ only by a hand-over, if the program was executed
to its end. -/
structure StandsAt (m₁ m : Machine) (completed : Prop) : Prop where
  /-- The next instruction is the same. -/
  pc : m.pc = m₁.pc
  /-- The data pointer is the same. -/
  dp : m.dp = m₁.dp
  /-- The tape is the same. -/
  tape : m.tape = m₁.tape
  /-- The same input is left, and as much has been consumed. -/
  input : m.input = m₁.input
  /-- As many instructions have been executed. -/
  executed : m.executed = m₁.executed
  /-- The same bytes were written. -/
  pushed : m.output.pushed = m₁.output.pushed
  /-- The sink is the same unless the program was executed to its end. -/
  kept : ¬ completed → m.output = m₁.output
  /-- If it was, the pending bytes have been handed over. -/
  flushed : completed → m₁.output.flush = (.ok (), m.output)

/-- A machine stands where it stands. -/
lemma StandsAt.refl (m : Machine) {completed : Prop} (h : ¬ completed) : StandsAt m m completed where
  pc := rfl
  dp := rfl
  tape := rfl
  input := rfl
  executed := rfl
  pushed := rfl
  kept _ := rfl
  flushed hc := absurd hc h

/-- A machine that has executed the program to its end stands where the program ended. -/
lemma standsAt_of_finish {stats : Stats} (h : m.finish = (.ok stats, m')) {completed : Prop}
    (hc : completed) : StandsAt m m' completed ∧ m'.finished = true := by
  unfold finish at h
  split at h
  · cases h
  · rename_i output hflush
    cases h
    exact ⟨⟨rfl, rfl, rfl, rfl, rfl, (OutputSink.pushed_of_flush hflush).1,
      fun hn => absurd hc hn, fun _ => hflush⟩, rfl⟩

end Machine

/-- A call on a machine that has finished changes nothing, and executes no program to its end. -/
lemma Call.Returns.eq_of_finished {call : Call} {m m' : Machine} {returned : Returned}
    (h : call.Returns m returned m') (hf : m.finished = true) :
    m' = m ∧ ∀ stats, returned ≠ .completed stats := by
  obtain ⟨steps, m₁, hw, hc, -⟩ := h.exists_walk
  obtain rfl := hw.eq_of_finished hf
  cases hc with
  | step | lost | nothing => exact ⟨rfl, by simp⟩
  | fails hf' | flushFails hf' | completed hf' | quit hf' =>
    rw [hf] at hf'
    cases hf'

namespace Calls

variable {m m' : Machine} {calls : List (Call × Returned)}

/-- Calls on a machine that has finished change nothing. -/
lemma eq_of_finished (h : Calls m calls m') (hf : m.finished = true) :
    m' = m ∧ ¬ HasCompleted calls := by
  induction h with
  | nil => exact ⟨rfl, by simp [HasCompleted]⟩
  | cons h _ ih =>
    obtain ⟨rfl, hne⟩ := h.eq_of_finished hf
    rw [hasCompleted_cons hne]
    exact ih hf

/-- **Whatever calls there are, they lead where single steps lead**, as long as the program does not
fail.

**Proof sketch.** Induction on the calls. As long as the machine has not finished it stands on the
path itself, and a call goes on along the path. A call that finishes the machine is the last one
that does anything. -/
theorem exists_walk (h : Calls m calls m') (hf : m.finished = false)
    (hfault : ∀ c ∈ calls, c.2.isProgramFault = false) :
    ∃ steps m₁, Walk m steps m₁ ∧ StandsAt m₁ m' (HasCompleted calls) := by
  induction h with
  | nil m => exact ⟨[], m, .nil m, .refl m (by simp [HasCompleted])⟩
  | @cons m m₂ m' call returned calls hcall hcalls ih =>
    obtain ⟨steps, m₁, hw, hc, -⟩ := hcall.exists_walk
    have hf₁ : m₁.finished = false := hw.frame.2.trans hf
    have hfault₁ : returned.isProgramFault = false := hfault _ List.mem_cons_self
    have hfault₂ : ∀ c ∈ calls, c.2.isProgramFault = false := fun c hmem =>
      hfault c (List.mem_cons_of_mem _ hmem)
    -- a call that does nothing in the end leaves the rest to the calls that follow
    have hgo : m₂ = m₁ → (∀ stats, returned ≠ .completed stats) → ∃ steps m₃, Walk m steps m₃ ∧
        StandsAt m₃ m' (HasCompleted ((call, returned) :: calls)) := by
      rintro rfl hne
      obtain ⟨steps', m₃, hw', hs⟩ := ih hf₁ hfault₂
      rw [hasCompleted_cons hne]
      exact ⟨steps ++ steps', m₃, hw.append hw', hs⟩
    cases hc with
    | step | lost | nothing => exact hgo rfl (by simp)
    | fails _ _ he =>
      rw [isProgramFault_of_execute he] at hfault₁
      cases hfault₁
    | flushFails _ _ hfinish =>
      rw [isProgramFault_of_finish hfinish] at hfault₁
      cases hfault₁
    | @completed _ stats _ _ hfinish =>
      have hcompleted : HasCompleted ((call, .completed stats) :: calls) :=
        ⟨call, stats, List.mem_cons_self⟩
      obtain ⟨hs, hf₂⟩ := standsAt_of_finish hfinish hcompleted
      obtain ⟨rfl, -⟩ := hcalls.eq_of_finished hf₂
      exact ⟨steps, m₁, hw, hs⟩
    | quit =>
      obtain ⟨rfl, hnone⟩ := hcalls.eq_of_finished rfl
      rw [hasCompleted_cons (by simp)]
      exact ⟨steps, m₁, hw, rfl, rfl, rfl, rfl, rfl, rfl, fun _ => rfl, fun hc => absurd hc hnone⟩

end Calls

/-! ## The ways of driving a machine -/

/-- **The way of driving a machine does not matter.** A debug session that its debugger lets go on
ends exactly when a run of the machine does, for the same reason and with the same machine; and
whatever calls are made from the start of a program, if none of them returns because the program
fails, they lead where as many single steps lead as instructions were executed. -/
theorem driving_does_not_matter :
    (∀ (m : Machine) (d : Debugger), d.Obliging → ∀ r m',
      (∃ s', (Session.start m d .separate).RunsTo r s' ∧ s'.machine = m') ↔
        ∃ r₀, m.RunsTo r₀ m' ∧ r = r₀.map .completed) ∧
    ∀ program config reader writer calls m,
      Calls (.start program config reader writer) calls m →
      (∀ c ∈ calls, c.2.isProgramFault = false) →
      ∃ steps m₁, Walk (.start program config reader writer) steps m₁ ∧
        steps.length = m.executed ∧
        StandsAt m₁ m (HasCompleted calls) ∧
        m.output.pushed = writer.accepted.toList ++ emitted steps := by
  refine ⟨fun m d hd r m' => Session.runsTo_iff_of_obliging hd, ?_⟩
  intro program config reader writer calls m hcalls hfault
  obtain ⟨steps, m₁, hw, hs⟩ := hcalls.exists_walk rfl hfault
  refine ⟨steps, m₁, hw, ?_, hs, ?_⟩
  · rw [hs.executed, hw.executed]
    exact (Nat.zero_add _).symm
  · rw [hs.pushed, hw.pushed]
    simp [OutputSink.pushed, Machine.start]

/-- The operator who prints the tape and goes on makes a session a run, on every machine; and a step
and a run of the program `+` lead where one step leads. -/
theorem driving_does_not_matter_of_increment :
    (∀ m r m',
      (∃ s', (Session.start m ⟨.ofBytes [112, 10, 99, 10], {}, 2⟩ .separate).RunsTo r s' ∧
        s'.machine = m') ↔ ∃ r₀, m.RunsTo r₀ m' ∧ r = r₀.map .completed) ∧
    ∃ (program : Program) (calls : List (Call × Returned)) (m : Machine) (steps : List Step)
      (m₁ : Machine), program.instructions = #[.incr 1] ∧ HasCompleted calls ∧
        Calls (.start program {} (.ofBytes []) {}) calls m ∧
        Walk (.start program {} (.ofBytes []) {}) steps m₁ ∧ steps.length = 1 ∧
        StandsAt m₁ m (HasCompleted calls) := by
  have hd : Debugger.Obliging ⟨.ofBytes [112, 10, 99, 10], {}, 2⟩ :=
    ⟨.more (show Reader.nextCommand _ = .ok (some .print) from rfl) (by decide) (.proceed rfl),
      ⟨rfl, by simp, by simp⟩⟩
  refine ⟨fun m r m' => driving_does_not_matter.1 m _ hd r m', ⟨#[.incr 1], ⟨#[0]⟩, 0, rfl⟩,
    [(.next, .step ⟨0, .incr 1, 1, 0, 1⟩), (.run, .completed ⟨1, 1, 0, 0⟩)], ?_⟩
  have hcalls : Calls (.start ⟨#[.incr 1], ⟨#[0]⟩, 0, rfl⟩ {} (.ofBytes []) {})
      [(.next, .step ⟨0, .incr 1, 1, 0, 1⟩), (.run, .completed ⟨1, 1, 0, 0⟩)] _ :=
    .cons (.step rfl) (.cons (.run ⟨1, rfl⟩) (.nil _))
  obtain ⟨steps, m₁, hw, hlen, hs, -⟩ :=
    driving_does_not_matter.2 _ _ _ _ _ _ hcalls (by decide)
  exact ⟨_, steps, m₁, rfl, ⟨.run, ⟨1, 1, 0, 0⟩, by simp⟩, hcalls, hw, hlen, hs⟩

end TapeMachine

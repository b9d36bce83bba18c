import Mathlib.Tactic
import TapeMachine.Proofs.Debug.Emissions
import TapeMachine.Proofs.Debug.Independence
import TapeMachine.Proofs.Debug.Reachable
import TapeMachine.Proofs.Stream.Attempts

/-!
# The life of a machine

A machine has finished once a call has executed its program to the end, or the operator has ended a
session. No other call finishes it, and afterwards it is not changed any more. A run that reaches
the end of the program and cannot hand its output over leaves the machine there, and can be
repeated.

## Main definitions

* `TapeMachine.Returned.ends` — what a call returns that finishes the machine.
* `TapeMachine.Machine.EndsLike` — the end of the same execution.
* `TapeMachine.Calls.LifeCycle` — how calls finish a machine, and what they do at its end.

## Main results

* `TapeMachine.Call.Returns.toNat_finished`, `TapeMachine.Calls.toNat_finished` — the calls that
  finish a machine, counted.
* `TapeMachine.Call.returns_iff_of_finished`, `TapeMachine.Session.runsTo_iff_of_finished` — calls
  on a machine that has finished.
* `TapeMachine.Machine.runsTo_iff_of_end` — the run of a machine at the end of its program.
* `TapeMachine.Calls.life_cycle` — all this of every reachable machine.
-/

set_option autoImplicit false

namespace TapeMachine

/-- Whether a call that returns this has finished the machine: the program has been executed to its
end, or the operator has ended the session. -/
def Returned.ends : Returned → Bool
  | completed _ | quit => true
  | step _ | failed _ | lost _ => false

open Machine

variable {m m' m₁ : Machine} {call : Call} {returned : Returned} {calls : List (Call × Returned)}

/-! ## Calls that finish a machine -/

/-- What concludes a call finishes the machine exactly if the call returns so, and it had not
finished before. -/
lemma Machine.Concludes.toNat_finished (h : Concludes m returned m') :
    m'.finished.toNat = m.finished.toNat + returned.ends.toNat := by
  cases h with
  | step | lost | nothing => rfl
  | @fails _ i _ _ _ he =>
    have hkept := finished_execute m i
    rw [he] at hkept
    rw [← hkept]
    rfl
  | flushFails _ _ h =>
    unfold finish at h
    split at h <;> cases h
    rfl
  | completed hf _ h =>
    unfold finish at h
    split at h <;> cases h
    rw [hf]
    rfl
  | quit hf =>
    rw [hf]
    rfl

/-- **A call finishes a machine exactly if it returns so.** -/
theorem Call.Returns.toNat_finished (h : call.Returns m returned m') :
    m'.finished.toNat = m.finished.toNat + returned.ends.toNat := by
  obtain ⟨steps, m₁, hwalk, hc, -⟩ := h.exists_walk
  rw [hc.toNat_finished, hwalk.frame.2]

/-- Only a run that has executed the program to its end, and a debug session, finish a machine. -/
lemma Call.Returns.cases_of_ends (h : call.Returns m returned m') (hends : returned.ends = true) :
    (call = .run ∧ ∃ stats, returned = .completed stats) ∨ ∃ d, call = .debug d := by
  cases h with
  | step | stepFails | runFails => cases hends
  | run => exact Or.inl ⟨rfl, _, rfl⟩
  | @debug _ d => exact Or.inr ⟨d, rfl⟩

/-- As long as a call goes on it has made a walk. -/
lemma Call.Course.exists_walk {made : List Emission} (h : call.Course m made none m') :
    ∃ steps, Walk m steps m' := by
  cases h with
  | begun => exact ⟨[], .nil m⟩
  | running hf h => exact exists_walk_of_reaches hf ((Progress.reaches_iff_emits _).mpr ⟨_, h⟩)
  | debugging h =>
    exact Session.exists_walk_of_reached rfl ((Progress.reaches_iff_emits _).mpr ⟨_, h⟩)

/-- As long as a call goes on it has not finished the machine. -/
lemma Call.Course.finished_eq {made : List Emission} (h : call.Course m made none m') :
    m'.finished = m.finished := by
  obtain ⟨steps, hwalk⟩ := h.exists_walk
  exact hwalk.frame.2

/-- **The calls that finish a machine, counted.**

**Proof sketch.** Induction on the calls. -/
theorem Calls.toNat_finished (h : Calls m calls m') :
    m'.finished.toNat = m.finished.toNat + calls.countP fun c => c.2.ends := by
  induction h with
  | nil => rfl
  | @cons _ _ _ call returned _ h _ ih =>
    rw [ih, h.toNat_finished, List.countP_cons]
    cases returned.ends <;> simp only [Bool.toNat, cond, if_true, Bool.false_eq_true, if_false] <;>
      omega

/-! ## Calls on a machine that has finished -/

/-- A session on a machine that has finished ends at once: nothing is shown, and no line of the
operator is taken. -/
theorem Session.runsTo_iff_of_finished {s s' : Session} (hf : s.machine.finished = true)
    {r : Except Fault Exit} : s.RunsTo r s' ↔ r = .error .alreadyFinished ∧ s' = s := by
  have hstep : s.step = .ended (.error .alreadyFinished) s := by simp only [step, hf, if_true]
  rw [runsTo_iff_halts, Progress.halts_iff_of_ended hstep, eq_comm, @eq_comm _ s s']

/-- **Every call on a machine that has finished** is told so, and leaves the machine as it is. -/
theorem Call.returns_iff_of_finished (hf : m.finished = true) :
    call.Returns m returned m' ↔ returned = .failed .alreadyFinished ∧ m' = m := by
  have hreturns : call.Returns m (.failed .alreadyFinished) m := by
    cases call with
    | next => exact .stepFails (next_eq_error_iff.mpr (Or.inl ⟨Or.inl hf, rfl, rfl⟩))
    | run => exact .runFails ⟨0, by simp only [Machine.run, hf, if_true]⟩
    | debug d =>
      have hstep : (Session.start m d .separate).step =
          .ended (.error .alreadyFinished) (.start m d .separate) := by
        simp only [Session.step, Session.start, hf, if_true]
      exact .debug (.refl _) hstep
  constructor
  · exact fun h => h.unique hreturns
  · rintro ⟨rfl, rfl⟩
    exact hreturns

/-! ## Machines at the end of the program -/

namespace Machine

variable {output : OutputSink} {cause : IoError} {r : Except Fault Stats}

/-- Behind the last instruction there is none. -/
lemma instruction?_of_pc_eq (h : m.pc = m.program.size) : m.instruction? = none :=
  Array.getElem?_eq_none h.ge

/-- Nothing is executed at the end of the program. -/
lemma Walk.eq_of_instruction?_eq_none {steps : List Step} (h : Walk m steps m')
    (hi : m.instruction? = none) : m' = m := by
  cases h with
  | nil => rfl
  | cons hnext =>
    obtain ⟨-, i, hsome, -⟩ := next_eq_ok_iff.mp hnext
    rw [hi] at hsome
    cases hsome

/-- A single step is told that the program has ended exactly if there is no instruction to execute,
and leaves the machine as it is. -/
lemma next_eq_alreadyFinished_iff (hf : m.finished = false) :
    m.next = (.error .alreadyFinished, m') ↔ m.instruction? = none ∧ m' = m := by
  rw [next_eq_error_iff]
  constructor
  · rintro (⟨hend, -, rfl⟩ | ⟨-, i, -, he⟩)
    · rw [hf] at hend
      exact ⟨hend.resolve_left (by simp), rfl⟩
    · -- no instruction fails like this
      cases isProgramFault_of_execute he
  · rintro ⟨hi, rfl⟩
    exact Or.inl ⟨Or.inr hi, rfl, rfl⟩

/-- Where the pending output can be handed over, the end of a run finishes the machine. -/
lemma finish_of_flush (h : m.output.flush = (.ok (), output)) :
    m.finish = (.ok m.stats, { m with output, finished := true }) := by
  have hwritten := OutputSink.written_flush m.output
  rw [h] at hwritten
  simp only [finish, h, stats, ← hwritten]

/-- Where the pending output cannot be handed over, the end of a run fails. -/
lemma finish_of_flush_error (h : m.output.flush = (.error cause, output)) :
    m.finish = (.error (.io cause), { m with output }) := by
  simp only [finish, h]

/-- The end of a run does nothing but hand the pending output over. -/
lemma finish_eq_iff :
    m.finish = (r, m') ↔
      (∃ output, m.output.flush = (.ok (), output) ∧ r = .ok m.stats ∧
        m' = { m with output, finished := true }) ∨
      ∃ cause output, m.output.flush = (.error cause, output) ∧ r = .error (.io cause) ∧
        m' = { m with output } := by
  rcases hflush : m.output.flush with ⟨cause | ⟨⟩, output⟩
  · rw [finish_of_flush_error hflush]
    simp [eq_comm]
  · rw [finish_of_flush hflush]
    simp [eq_comm]

/-- **At the end of the program** a run does nothing but end. -/
theorem runsTo_iff_of_end (hf : m.finished = false) (hi : m.instruction? = none) :
    m.RunsTo r m' ↔ m.finish = (r, m') := by
  have hadvance : m.advance = .ended m.finish.1 m.finish.2 := by simp only [advance, hi]
  rw [runsTo_iff_halts hf, Progress.halts_iff_of_ended hadvance, Prod.ext_iff]

/-- A machine stands at the end of the same execution as the machine `m₁`: they differ in nothing
but what has become of the output, and whether they have finished. -/
structure EndsLike (m₁ m : Machine) : Prop where
  same : m = { m₁ with output := m.output, finished := m.finished }
  written : m.output.written = m₁.output.written

namespace EndsLike

/-- The executions are equally long, and have read and written as much. -/
lemma stats_eq (h : EndsLike m₁ m) : m.stats = m₁.stats := by
  rw [h.same]
  simp only [stats, h.written]

/-- Both machines stand at the end of the program. -/
lemma instruction?_eq (h : EndsLike m₁ m) : m.instruction? = m₁.instruction? := by
  rw [h.same]
  rfl

/-- What concludes a call at the end of the program does not go on with the execution. -/
lemma concludes (h : EndsLike m₁ m) (hi : m₁.instruction? = none) (hc : Concludes m returned m') :
    EndsLike m₁ m' ∧ ∀ stats, returned = .completed stats → stats = m₁.stats := by
  have hfinish : ∀ {r}, m.finish = (r, m') →
      EndsLike m₁ m' ∧ ∀ stats, r = .ok stats → stats = m₁.stats := by
    intro r hfinish
    have hkept := OutputSink.written_flush m.output
    rcases finish_eq_iff.mp hfinish with
      ⟨output, hflush, rfl, rfl⟩ | ⟨cause, output, hflush, rfl, rfl⟩ <;>
      rw [hflush] at hkept
    · refine ⟨⟨?_, hkept.trans h.written⟩, ?_⟩
      · rw [h.same]
      · rintro _ ⟨⟩
        exact h.stats_eq
    · refine ⟨⟨?_, hkept.trans h.written⟩, by simp⟩
      rw [h.same]
  cases hc with
  | step | lost | nothing => exact ⟨h, by simp⟩
  | fails _ hsome =>
    rw [h.instruction?_eq, hi] at hsome
    cases hsome
  | flushFails _ _ h => exact ⟨(hfinish h).1, by simp⟩
  | completed _ _ h =>
    obtain ⟨hends, hstats⟩ := hfinish h
    exact ⟨hends, fun stats heq => hstats stats (by cases heq; rfl)⟩
  | quit =>
    refine ⟨⟨?_, h.written⟩, by simp⟩
    rw [h.same]

/-- **Whatever calls are made at the end of the program**, they do not go on with the execution:
what they return as executed to the end is this execution.

**Proof sketch.** Induction on the calls. Behind the last instruction the walk of a call has no
steps. -/
theorem of_calls (h : EndsLike m₁ m) (hi : m₁.instruction? = none) {later : List (Call × Returned)}
    (hcalls : Calls m later m') :
    EndsLike m₁ m' ∧ ∀ call stats, (call, Returned.completed stats) ∈ later → stats = m₁.stats := by
  induction hcalls with
  | nil => exact ⟨h, by simp⟩
  | cons hcall _ ih =>
    obtain ⟨steps, m₂, hwalk, hc, -⟩ := hcall.exists_walk
    obtain rfl := hwalk.eq_of_instruction?_eq_none (h.instruction?_eq.trans hi)
    obtain ⟨hends, hstats⟩ := h.concludes hi hc
    obtain ⟨hends', hstats'⟩ := ih hends
    refine ⟨hends', fun call' stats hmem => ?_⟩
    rcases List.mem_cons.mp hmem with heq | hmem
    · exact hstats stats (Prod.mk.inj heq).2.symm
    · exact hstats' call' stats hmem

end EndsLike

end Machine

/-! ## The life cycle -/

namespace Calls

/-- How calls finish a machine, and what they do once it has finished and at the end of the program:
said of a machine `m` that was driven by calls. -/
structure LifeCycle (calls : List (Call × Returned)) (m : Machine) : Prop where
  /-- The machine has finished exactly if some call has returned so. -/
  finished_iff : m.finished = true ↔ ∃ c ∈ calls, c.2.ends = true
  /-- At most one call has. -/
  once : (calls.countP fun c => c.2.ends) ≤ 1
  /-- A further call leaves a machine that has finished exactly if it had finished before, or the
  call returns so. Failures and the reports of single steps are nothing of this kind. -/
  sets : ∀ (call : Call) (returned : Returned) (m' : Machine), call.Returns m returned m' →
    (m'.finished = true ↔ m.finished = true ∨ returned.ends = true)
  /-- What finishes the machine is a run that has executed the program to its end, or a debug
  session. -/
  setters : ∀ (call : Call) (returned : Returned) (m' : Machine), call.Returns m returned m' →
    returned.ends = true →
    (call = .run ∧ ∃ stats, returned = .completed stats) ∨ ∃ d, call = .debug d
  /-- It does so when it returns, and not before. -/
  course : ∀ (call : Call) (made : List Emission) (m' : Machine), call.Course m made none m' →
    m'.finished = m.finished
  /-- Once the machine has finished every call is told so, and nothing changes. -/
  after : m.finished = true → ∀ (call : Call) (returned : Returned) (m' : Machine),
    call.Returns m returned m' ↔ returned = .failed .alreadyFinished ∧ m' = m
  /-- A session shows nothing then, and takes no line of the operator. -/
  after_session : m.finished = true → ∀ d wiring r s',
    (Session.start m d wiring).RunsTo r s' ↔
      r = .error .alreadyFinished ∧ s' = .start m d wiring
  /-- As long as the machine has not finished, a single step is told so at the end of the program
  and only there, and nothing changes. -/
  next_at_end : m.finished = false → ∀ m',
    m.next = (.error .alreadyFinished, m') ↔ m.pc = m.program.size ∧ m' = m
  /-- There a run does nothing but hand the pending output over. -/
  run_at_end : m.finished = false → m.pc = m.program.size → ∀ r m', m.RunsTo r m' ↔
    (∃ output, m.output.flush = (.ok (), output) ∧ r = .ok m.stats ∧
      m' = { m with output, finished := true }) ∨
    ∃ cause output, m.output.flush = (.error cause, output) ∧ r = .error (.io cause) ∧
      m' = { m with output }
  /-- A run whose output cannot be handed over in the end fails at the end of the program. Whatever
  calls are made then, they do not go on with the execution; and once the output can be handed over
  a run returns what this execution has done. -/
  repeatable : m.finished = false → ∀ steps m₁, Walk m steps m₁ → m₁.pc = m₁.program.size →
    ∀ cause output, m₁.output.flush = (.error cause, output) →
      m.RunsTo (.error (.io cause)) { m₁ with output } ∧
      ∀ later m₂, Calls { m₁ with output } later m₂ →
        EndsLike m₁ m₂ ∧
        (∀ call stats, (call, Returned.completed stats) ∈ later → stats = m₁.stats) ∧
        (m₂.finished = false → ∀ output', m₂.output.flush = (.ok (), output') →
          m₂.RunsTo (.ok m₁.stats) { m₂ with output := output', finished := true })

/-- A run that gets to the end of the program and cannot hand its output over can be repeated. -/
lemma repeatable_of_walk (hf : m.finished = false) {steps : List Step} (hwalk : Walk m steps m₁)
    (hi : m₁.instruction? = none) {cause : IoError} {output : OutputSink}
    (hflush : m₁.output.flush = (.error cause, output)) :
    m.RunsTo (.error (.io cause)) { m₁ with output } ∧
      ∀ later m₂, Calls { m₁ with output } later m₂ →
        EndsLike m₁ m₂ ∧
        (∀ call stats, (call, Returned.completed stats) ∈ later → stats = m₁.stats) ∧
        (m₂.finished = false → ∀ output', m₂.output.flush = (.ok (), output') →
          m₂.RunsTo (.ok m₁.stats) { m₂ with output := output', finished := true }) := by
  constructor
  · have hend : m₁.advance = .ended (.error (.io cause)) { m₁ with output } :=
      advance_eq_ended_iff.mpr (Or.inl ⟨hi, finish_of_flush_error hflush⟩)
    exact (runsTo_iff_walk hf).mpr ⟨steps, m₁, hwalk, hend⟩
  · intro later m₂ hlater
    have hkept := OutputSink.written_flush m₁.output
    rw [hflush] at hkept
    have hstart : EndsLike m₁ { m₁ with output } := ⟨rfl, hkept⟩
    obtain ⟨hends, hstats⟩ := hstart.of_calls hi hlater
    refine ⟨hends, hstats, fun hf₂ output' hflush' => ?_⟩
    rw [← hends.stats_eq]
    exact (runsTo_iff_of_end hf₂ (hends.instruction?_eq.trans hi)).mpr (finish_of_flush hflush')

/-- **The life of a machine.** Whatever calls are made from the start of a program, at most one of
them finishes the machine: a run that has executed the program to its end, or a session that has, or
that the operator has ended. Then nothing changes any more. Before, single steps are told at the end
of the program that there is nothing left to execute, and a run there does nothing but hand the
pending output over, however often that fails. -/
theorem life_cycle (program : Program) (config : Config) (reader : Reader) (writer : Writer)
    (calls : List (Call × Returned)) (m : Machine)
    (h : Calls (.start program config reader writer) calls m) : LifeCycle calls m := by
  have hcount : m.finished.toNat = calls.countP fun c => c.2.ends :=
    h.toNat_finished.trans (Nat.zero_add _)
  have hpc := (reachable_machine_in_bounds _ _ _ _ _ _ h).pc_le
  exact
    { finished_iff := by
        rw [← List.countP_pos_iff, ← hcount]
        cases m.finished <;> simp
      once := hcount ▸ Bool.toNat_le _
      sets := fun call returned m' hcall => by
        have hset := hcall.toNat_finished
        cases hm : m.finished <;> cases hm' : m'.finished <;> cases hends : returned.ends <;>
          simp [hm, hm', hends] at hset ⊢
      setters := fun call returned m' hcall => hcall.cases_of_ends
      course := fun call made m' hcourse => hcourse.finished_eq
      after := fun hf call returned m' => Call.returns_iff_of_finished hf
      after_session := fun hf d wiring r s' => Session.runsTo_iff_of_finished hf
      next_at_end := fun hf m' => by
        rw [next_eq_alreadyFinished_iff hf, instruction?_eq_none_iff hpc]
      run_at_end := fun hf hend r m' => by
        rw [runsTo_iff_of_end hf (instruction?_of_pc_eq hend), finish_eq_iff]
      repeatable := fun hf steps m₁ hwalk hend cause output =>
        repeatable_of_walk hf hwalk (instruction?_of_pc_eq hend) }

/-- The program `.` over a writer that refuses to flush once. The run fails in the end, a single
step is told that nothing is left to execute, the next run completes, and the one after it is told
that the machine has finished. -/
theorem life_cycle_of_repeated_run :
    ∃ (program : Program) (m : Machine), program.instructions = #[.output] ∧ m.finished = true ∧
      Calls (.start program {} (.ofBytes []) { flushPlan := [.broken] })
        [(.run, .failed (.io .brokenFlush)), (.next, .failed .alreadyFinished),
          (.run, .completed ⟨1, 1, 1, 0⟩), (.run, .failed .alreadyFinished)] m ∧
      LifeCycle
        [(.run, .failed (.io .brokenFlush)), (.next, .failed .alreadyFinished),
          (.run, .completed ⟨1, 1, 1, 0⟩), (.run, .failed .alreadyFinished)] m := by
  have hcalls : Calls
      (.start ⟨#[.output], ⟨#[0]⟩, 0, rfl⟩ {} (.ofBytes []) { flushPlan := [.broken] })
      [(.run, .failed (.io .brokenFlush)), (.next, .failed .alreadyFinished),
        (.run, .completed ⟨1, 1, 1, 0⟩), (.run, .failed .alreadyFinished)] _ :=
    .cons (.runFails ⟨2, rfl⟩) (.cons (.stepFails rfl)
      (.cons (.run ⟨1, rfl⟩) (.cons (.runFails ⟨0, rfl⟩) (.nil _))))
  exact ⟨_, _, rfl, rfl, hcalls, life_cycle _ _ _ _ _ _ hcalls⟩

end Calls

end TapeMachine

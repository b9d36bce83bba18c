import Mathlib.Tactic
import TapeMachine.Debug.Session
import TapeMachine.Proofs.Debug.Operator
import TapeMachine.Proofs.Machine.Walk

/-!
# Debug sessions and runs

A debug session executes the same instructions as a run. If its debugger lets it go on it ends when
the run does, for the same reason and with the same machine.

## Main definitions

* `TapeMachine.Session.Obliging` — a session that its debugger lets go on.

## Main results

* `TapeMachine.Session.Obliging.step_executing`, `TapeMachine.Session.Obliging.step_asking` — what
  one step of such a session does.
* `TapeMachine.Session.Obliging.halts_iff`, `TapeMachine.Session.runsTo_iff_of_obliging` — such a
  session ends exactly when the run does.
-/

set_option autoImplicit false

namespace TapeMachine

namespace Session

variable {s s' : Session} {m : Machine}

/-! ## Single steps -/

/-- A session that executes an instruction reports it and asks the operator, or goes on at once. -/
lemma advance_of_next {report : Step} (h : s.machine.next = (.ok report, m))
    (suspending : Bool) :
    s.advance suspending =
      if suspending then
        match s.debugger.announce report with
        | (.error cause, debugger) => .ended (.error (.io cause)) { s with machine := m, debugger }
        | (.ok (), debugger) =>
          .running { s with machine := m, debugger, phase := .asking report }
      else
        .running { s with machine := m } := by
  obtain ⟨-, i, hi, -, -⟩ := Machine.next_eq_ok_iff.mp h
  unfold advance
  rewrite [hi, h]
  rfl

/-- Where a run ends a session ends as well. -/
lemma advance_of_ended (hf : s.machine.finished = false) {r : Except Fault Stats}
    (h : s.machine.advance = .ended r m) (suspending : Bool) :
    s.advance suspending = .ended (r.map .completed) { s with machine := m } := by
  rcases Machine.advance_eq_ended_iff.mp h with ⟨hi, hfinish⟩ | ⟨i, fault, hi, he, rfl⟩
  · simp only [advance, hi, hfinish]
    cases r <;> rfl
  · have hnext := Machine.next_eq_error_iff.mpr (Or.inr ⟨hf, i, hi, he⟩)
    unfold advance
    rewrite [hi, hnext]
    rfl

/-- While the machine has not finished, a session that does not wait for the operator executes. -/
lemma step_of_executing (hf : s.machine.finished = false) {suspending : Bool}
    (hp : s.phase = .executing suspending) : s.step = s.advance suspending := by
  simp only [step, hf, Bool.false_eq_true, if_false, hp]

/-- While the machine has not finished, a session that waits for the operator takes a line. -/
lemma step_of_asking (hf : s.machine.finished = false) (hw : s.wiring = .separate)
    {report : Step} (hp : s.phase = .asking report) :
    s.step =
      match s.debugger.answer report.dp s.machine.tape with
      | (.failed cause, d) => .ended (.error (.io cause)) { s with debugger := d }
      | (.again, d) => .running { s with debugger := d }
      | (.resume how, d) => { s with debugger := d }.resume how := by
  unfold step operator commands withOperator
  rewrite [hf, hp, hw]
  rfl

/-! ## Sessions that go on -/

/-- A session that its debugger lets go on. Once the operator has asked for the rest of the program
the lines do not matter any more. -/
structure Obliging (s : Session) : Prop where
  separate : s.wiring = .separate
  running : s.machine.finished = false
  screen : s.debugger.screen.Reliable
  commands : s.phase = .executing false ∨ s.debugger.commands.NeverQuits

namespace Obliging

/-- Such a session executes an instruction when the run does, and ends when the run does. -/
theorem step_executing (h : s.Obliging) {suspending : Bool} (hp : s.phase = .executing suspending) :
    (∃ s', s.step = .running s' ∧ s.machine.advance = .running s'.machine ∧ s'.Obliging) ∨
      ∃ r m, s.machine.advance = .ended r m ∧
        s.step = .ended (r.map .completed) { s with machine := m } := by
  rw [step_of_executing h.running hp]
  cases hadvance : s.machine.advance with
  | running m =>
    left
    obtain ⟨report, hnext⟩ := (Machine.advance_eq_running_iff_next h.running).mp hadvance
    have hf : m.finished = false := (Machine.next_frame hnext).2.1.trans h.running
    rw [advance_of_next hnext]
    cases suspending with
    | false => exact ⟨_, rfl, rfl, { h with running := hf }⟩
    | true =>
      obtain ⟨d, hannounce, hd⟩ := Debugger.exists_announce h.screen report
      simp only [if_true, hannounce]
      refine ⟨_, rfl, rfl, h.separate, hf, hd.screen, Or.inr ?_⟩
      rw [hd.commands]
      refine h.commands.resolve_left ?_
      rw [hp]
      simp
  | ended r m => exact Or.inr ⟨r, m, rfl, advance_of_ended h.running hadvance suspending⟩

/-- Such a session takes a line and goes on, with the machine as it is: it executes, or asks again
while fewer lines are left. -/
theorem step_asking (h : s.Obliging) {report : Step} (hp : s.phase = .asking report) :
    ∃ s', s.step = .running s' ∧ s'.machine = s.machine ∧ s'.Obliging ∧
      ((∃ suspending, s'.phase = .executing suspending) ∨ s'.phase = .asking report ∧
        s'.debugger.commands.events.length < s.debugger.commands.events.length) := by
  have hcommands : s.debugger.commands.NeverQuits := by
    refine h.commands.resolve_left ?_
    rw [hp]
    simp
  have hd : s.debugger.Obliging := ⟨hcommands, h.screen⟩
  obtain ⟨reply, d, hanswer, hscreen, hreply⟩ := hd.exists_reply report.dp s.machine.tape
  have hshorter := s.debugger.length_commands_answer_lt report.dp s.machine.tape
  rw [step_of_asking h.running h.separate hp]
  rw [hanswer] at hshorter ⊢
  rcases hreply with rfl | ⟨rfl | rfl, hrest⟩
  · exact ⟨_, rfl, rfl, ⟨h.separate, h.running, hscreen, Or.inl rfl⟩, Or.inl ⟨false, rfl⟩⟩
  · exact ⟨_, rfl, rfl, ⟨h.separate, h.running, hscreen, Or.inr hrest⟩, Or.inl ⟨true, rfl⟩⟩
  · exact ⟨_, rfl, rfl, ⟨h.separate, h.running, hscreen, Or.inr hrest⟩,
      Or.inr ⟨hp, hshorter rfl⟩⟩

/-- Such a session gets to execute, with the machine as it is, and what it leads to then it leads to
now.

**Proof sketch.** Induction on the lines that are left. -/
lemma exists_executing (h : s.Obliging) :
    ∃ s', s'.machine = s.machine ∧ s'.Obliging ∧ (∃ suspending, s'.phase = .executing suspending) ∧
      ∀ r t, Progress.Halts step s' r t → Progress.Halts step s r t := by
  cases hp : s.phase with
  | executing suspending => exact ⟨s, rfl, h, ⟨suspending, hp⟩, fun _ _ hr => hr⟩
  | asking report =>
    induction hn : s.debugger.commands.events.length using Nat.strong_induction_on
      generalizing s with
    | _ n ih =>
      obtain ⟨s₁, hstep, hmachine, h₁, hexec | ⟨hp₁, hlt⟩⟩ := h.step_asking hp
      · exact ⟨s₁, hmachine, h₁, hexec, fun r t => .running hstep⟩
      · obtain ⟨s', hmachine', h', hexec, hhalts⟩ := ih _ (hn ▸ hlt) h₁ hp₁ rfl
        exact ⟨s', hmachine'.trans hmachine, h', hexec,
          fun r t hr => .running hstep (hhalts r t hr)⟩

/-- Where such a session ends the run ends as well. -/
lemma exists_halts_advance (h : s.Obliging) {r : Except Fault Exit}
    (hs : Progress.Halts step s r s') :
    ∃ r₀, Progress.Halts Machine.advance s.machine r₀ s'.machine ∧ r = r₀.map .completed := by
  induction hs with
  | @ended s s' r hend =>
    cases hp : s.phase with
    | executing suspending =>
      rcases h.step_executing hp with ⟨s₁, hstep, -⟩ | ⟨r₀, m, hadvance, hstep⟩
      · rw [hstep] at hend
        cases hend
      · rw [hstep] at hend
        cases hend
        exact ⟨r₀, .ended hadvance, rfl⟩
    | asking report =>
      obtain ⟨s₁, hstep, -⟩ := h.step_asking hp
      rw [hstep] at hend
      cases hend
  | @running s s₁ s' r hrun _ ih =>
    cases hp : s.phase with
    | executing suspending =>
      rcases h.step_executing hp with ⟨s₂, hstep, hadvance, h₂⟩ | ⟨r₀, m, -, hstep⟩
      · rw [hstep] at hrun
        cases hrun
        obtain ⟨r₀, hr₀, rfl⟩ := ih h₂
        exact ⟨r₀, .running hadvance hr₀, rfl⟩
      · rw [hstep] at hrun
        cases hrun
    | asking report =>
      -- a line of the operator does not concern the machine
      obtain ⟨s₂, hstep, hmachine, h₂, -⟩ := h.step_asking hp
      rw [hstep] at hrun
      cases hrun
      rw [← hmachine]
      exact ih h₂

/-- Where the run ends such a session ends as well. -/
lemma exists_halts_step (h : s.Obliging) {r₀ : Except Fault Stats}
    (hm : Progress.Halts Machine.advance s.machine r₀ m) :
    ∃ s', Progress.Halts step s (r₀.map .completed) s' ∧ s'.machine = m := by
  generalize hstart : s.machine = m₀ at hm
  induction hm generalizing s with
  | @ended m₀ m r₀ hend =>
    obtain ⟨s₁, hmachine, h₁, ⟨suspending, hp⟩, hhalts⟩ := h.exists_executing
    rw [← hstart, ← hmachine] at hend
    rcases h₁.step_executing hp with ⟨s₂, -, hadvance, -⟩ | ⟨r₁, m₁, hadvance, hstep⟩
    · rw [hend] at hadvance
      cases hadvance
    · rw [hend] at hadvance
      cases hadvance
      exact ⟨_, hhalts _ _ (.ended hstep), rfl⟩
  | @running m₀ m₁ m r₀ hrun _ ih =>
    obtain ⟨s₁, hmachine, h₁, ⟨suspending, hp⟩, hhalts⟩ := h.exists_executing
    rw [← hstart, ← hmachine] at hrun
    rcases h₁.step_executing hp with ⟨s₂, hstep, hadvance, h₂⟩ | ⟨r₁, m₁, hadvance, -⟩
    · rw [hrun] at hadvance
      cases hadvance
      obtain ⟨s', hs', hm'⟩ := ih h₂ rfl
      exact ⟨s', hhalts _ _ (.running hstep hs'), hm'⟩
    · rw [hrun] at hadvance
      cases hadvance

/-- **A session that its debugger lets go on ends exactly when the run does**, for the same reason
and with the same machine.

**Proof sketch.** Induction on the steps of the session, and on those of the run. A session makes
more steps than the run, since it takes the lines of the operator in between, but these do not
concern the machine. -/
theorem halts_iff (h : s.Obliging) {r : Except Fault Exit} :
    (∃ s', Progress.Halts step s r s' ∧ s'.machine = m) ↔
      ∃ r₀, Progress.Halts Machine.advance s.machine r₀ m ∧ r = r₀.map .completed := by
  constructor
  · rintro ⟨s', hs, rfl⟩
    exact h.exists_halts_advance hs
  · rintro ⟨r₀, hm, rfl⟩
    exact h.exists_halts_step hm

end Obliging

/-! ## Whole sessions -/

/-- A session ends with a result. -/
def RunsTo (s : Session) (result : Except Fault Exit) (s' : Session) : Prop :=
  ∃ fuel, s.run fuel = some (result, s')

/-- A session is the repetition of its steps. -/
lemma runsTo_iff_halts {r : Except Fault Exit} : s.RunsTo r s' ↔ Progress.Halts step s r s' :=
  Progress.halts_iff_iterate.symm

/-- A session ends in the step from a state that it reaches. -/
lemma runsTo_iff_reaches {r : Except Fault Exit} :
    s.RunsTo r s' ↔ ∃ s₁ : Session, Progress.Reaches step s s₁ ∧ s₁.step = .ended r s' :=
  runsTo_iff_halts.trans Progress.halts_iff_reaches

/-- A session has one result. -/
lemma RunsTo.unique {r r' : Except Fault Exit} {t : Session} (h : s.RunsTo r s')
    (h' : s.RunsTo r' t) : r = r' ∧ s' = t :=
  (runsTo_iff_halts.mp h).unique (runsTo_iff_halts.mp h')

/-- **A debug session is a run**, if its debugger lets it go on: it ends exactly when the run does,
for the same reason and with the same machine. -/
theorem runsTo_iff_of_obliging {d : Debugger} (hd : d.Obliging) {r : Except Fault Exit}
    {m' : Machine} :
    (∃ s', (start m d .separate).RunsTo r s' ∧ s'.machine = m') ↔
      ∃ r₀, m.RunsTo r₀ m' ∧ r = r₀.map .completed := by
  simp only [runsTo_iff_halts]
  cases hf : m.finished with
  | false =>
    simp only [Machine.runsTo_iff_halts hf]
    exact Obliging.halts_iff ⟨rfl, hf, hd.screen, Or.inr hd.commands⟩
  | true =>
    have hstep : (start m d .separate).step =
        .ended (.error .alreadyFinished) (start m d .separate) := by
      simp only [step, start, hf, if_true]
    simp only [Progress.halts_iff_of_ended hstep]
    have hrun : ∀ fuel, m.run fuel = some (.error .alreadyFinished, m) := by
      intro fuel
      simp only [Machine.run, hf, if_true]
    constructor
    · rintro ⟨s', ⟨rfl, rfl⟩, rfl⟩
      exact ⟨.error .alreadyFinished, ⟨0, hrun 0⟩, rfl⟩
    · rintro ⟨r₀, ⟨fuel, hr⟩, rfl⟩
      rw [hrun] at hr
      cases hr
      exact ⟨_, ⟨rfl, rfl⟩, rfl⟩

end Session

end TapeMachine

import Mathlib.Tactic
import TapeMachine.Proofs.Progress
import TapeMachine.Proofs.Debug.Calls

/-!
# Attempts to write output

An output that fails is made again by the next call, and each time its byte goes to the sink. This
module records the attempts: for every moment of every call, in the order in which they are made.

## Main definitions

* `TapeMachine.Emission` — an attempt of an output to write its byte.
* `TapeMachine.Machine.emissions`, `TapeMachine.Session.emissions` — the attempts that a step makes.
* `TapeMachine.Call.Course` — a moment in the course of a call, with the attempts made so far.
* `TapeMachine.Calls.History` — calls one after another, with the attempts made by them.
* `TapeMachine.Machine.Acts` — the least that any call does at a time.

## Main results

* `TapeMachine.Call.returns_iff_course`, `TapeMachine.Calls.iff_history` — the record can be kept of
  all calls.
* `TapeMachine.Call.Course.preserves`, `TapeMachine.Calls.History.preserves` — what every act
  preserves holds at every moment.
-/

set_option autoImplicit false

namespace TapeMachine

/-- An attempt of an output to write its byte. -/
structure Emission where
  /-- The number of instructions that were executed before. -/
  executed : Nat
  /-- The byte. -/
  byte : UInt8
  /-- Whether the output succeeded. -/
  succeeded : Bool
deriving DecidableEq, Repr

/-- The attempts that are made by executing the next instruction: one if it is an output. -/
def Machine.emissions (m : Machine) : List Emission :=
  if m.finished = false ∧ m.instruction? = some .output then
    [⟨m.executed, m.cell, m.emit.1.isOk⟩]
  else
    []

/-- The attempts that are made by a step of a session: none while it waits for the operator. -/
def Session.emissions (s : Session) : List Emission :=
  match s.phase with
  | .executing _ => s.machine.emissions
  | .asking _ => []

/-! ## Calls -/

/-- A moment in the course of a call on a machine, with the attempts that were made up to it and the
machine as it is then. The status is what the call has returned; it is `none` as long as the call
goes on. -/
inductive Call.Course : Call → Machine → List Emission → Option Returned → Machine → Prop
  | begun (call : Call) (m : Machine) : Course call m [] none m
  | step {m m' : Machine} {report : Step} (h : m.next = (.ok report, m')) :
    Course next m m.emissions (some (.step report)) m'
  | stepFails {m m' : Machine} {fault : Fault} (h : m.next = (.error fault, m')) :
    Course next m m.emissions (some (.failed fault)) m'
  | running {m m' : Machine} {made : List Emission} (hf : m.finished = false)
    (h : Progress.Emits Machine.advance Machine.emissions m made m') : Course run m made none m'
  | run {m m₁ m' : Machine} {made : List Emission} {stats : Stats} (hf : m.finished = false)
    (h : Progress.Emits Machine.advance Machine.emissions m made m₁)
    (hend : m₁.advance = .ended (.ok stats) m') :
    Course run m (made ++ m₁.emissions) (some (.completed stats)) m'
  | runFails {m m₁ m' : Machine} {made : List Emission} {fault : Fault} (hf : m.finished = false)
    (h : Progress.Emits Machine.advance Machine.emissions m made m₁)
    (hend : m₁.advance = .ended (.error fault) m') :
    Course run m (made ++ m₁.emissions) (some (.failed fault)) m'
  | runFinished {m : Machine} (hf : m.finished = true) :
    Course run m [] (some (.failed .alreadyFinished)) m
  | debugging {m : Machine} {d : Debugger} {made : List Emission} {s : Session}
    (h : Progress.Emits Session.step Session.emissions (.start m d .separate) made s) :
    Course (debug d) m made none s.machine
  | debug {m : Machine} {d : Debugger} {made : List Emission} {s s' : Session}
    {r : Except Fault Exit}
    (h : Progress.Emits Session.step Session.emissions (.start m d .separate) made s)
    (hend : s.step = .ended r s') :
    Course (debug d) m (made ++ s.emissions) (some (s.returned r)) s'.machine

/-- Calls one after another, each with what it returns, and the attempts that are made in the course
of them. -/
inductive Calls.History : Machine → List (Call × Returned) → List Emission → Machine → Prop
  | nil (m : Machine) : History m [] [] m
  | cons {m m₁ m' : Machine} {call : Call} {returned : Returned} {calls : List (Call × Returned)}
    {made later : List Emission} (h : call.Course m made (some returned) m₁)
    (rest : History m₁ calls later m') : History m ((call, returned) :: calls) (made ++ later) m'

open Machine

/-- **A call that returns has a record**, and a record of a call is of one that returns. -/
theorem Call.returns_iff_course {call : Call} {m m' : Machine} {returned : Returned} :
    call.Returns m returned m' ↔ ∃ made, call.Course m made (some returned) m' := by
  have hrun : ∀ {r : Except Fault Stats}, m.finished = false → (m.RunsTo r m' ↔
      ∃ made m₁, Progress.Emits Machine.advance Machine.emissions m made m₁ ∧
        m₁.advance = .ended r m') := by
    intro r hf
    simp only [runsTo_iff_halts hf, Progress.halts_iff_reaches,
      Progress.reaches_iff_emits Machine.emissions, exists_and_right.symm]
    exact exists_comm
  constructor
  · intro h
    cases h with
    | step h => exact ⟨_, .step h⟩
    | stepFails h => exact ⟨_, .stepFails h⟩
    | run h =>
      cases hf : m.finished with
      | false =>
        obtain ⟨made, m₁, hemits, hend⟩ := (hrun hf).mp h
        exact ⟨_, .run hf hemits hend⟩
      | true =>
        obtain ⟨fuel, hfuel⟩ := h
        simp [Machine.run, hf] at hfuel
    | @runFails _ _ fault h =>
      cases hf : m.finished with
      | false =>
        obtain ⟨made, m₁, hemits, hend⟩ := (hrun hf).mp h
        exact ⟨_, .runFails hf hemits hend⟩
      | true =>
        obtain ⟨fuel, hfuel⟩ := h
        simp only [Machine.run, hf, if_true, Option.some.injEq, Prod.mk.injEq,
          Except.error.injEq] at hfuel
        obtain ⟨rfl, rfl⟩ := hfuel
        exact ⟨_, .runFinished hf⟩
    | debug h hend =>
      obtain ⟨made, hemits⟩ := (Progress.reaches_iff_emits _).mp h
      exact ⟨_, .debug hemits hend⟩
  · rintro ⟨made, h⟩
    cases h with
    | step h => exact .step h
    | stepFails h => exact .stepFails h
    | run hf h hend => exact .run ((hrun hf).mpr ⟨_, _, h, hend⟩)
    | runFails hf h hend => exact .runFails ((hrun hf).mpr ⟨_, _, h, hend⟩)
    | runFinished hf =>
      refine .runFails ⟨0, ?_⟩
      simp only [Machine.run, hf, if_true]
    | debug h hend => exact .debug ((Progress.reaches_iff_emits _).mpr ⟨_, h⟩) hend

/-- **All calls have a record.** -/
theorem Calls.iff_history {m m' : Machine} {calls : List (Call × Returned)} :
    Calls m calls m' ↔ ∃ made, History m calls made m' := by
  constructor
  · intro h
    induction h with
    | nil m => exact ⟨[], .nil m⟩
    | cons h _ ih =>
      obtain ⟨made, hcourse⟩ := Call.returns_iff_course.mp h
      obtain ⟨later, hrest⟩ := ih
      exact ⟨_, .cons hcourse hrest⟩
  · rintro ⟨made, h⟩
    induction h with
    | nil m => exact .nil m
    | cons h _ ih => exact .cons (Call.returns_iff_course.mpr ⟨_, h⟩) ih

/-! ## Acts -/

namespace Machine

/-- The least that any call does to a machine at a time, with the attempts that are made by it. -/
inductive Acts : Machine → List Emission → Machine → Prop
  /-- Nothing. -/
  | idle (m : Machine) : Acts m [] m
  /-- An instruction is executed, and succeeds or fails. -/
  | execute {m m' : Machine} {i : Instruction} {r : Except Fault Unit} (hf : m.finished = false)
    (hi : m.instruction? = some i) (h : m.execute i = (r, m')) : Acts m m.emissions m'
  /-- At the end of the program the pending output is handed over, or that fails. -/
  | finish {m m' : Machine} {r : Except Fault Stats} (hf : m.finished = false)
    (hi : m.instruction? = none) (h : m.finish = (r, m')) : Acts m [] m'
  /-- The operator ends a session. -/
  | quit (m : Machine) : Acts m [] { m with finished := true }

variable {m m' : Machine}

/-- A machine that has finished makes no attempts. -/
lemma emissions_of_finished (hf : m.finished = true) : m.emissions = [] :=
  if_neg fun h => by simp [hf] at h

/-- Nothing but an output makes attempts. -/
lemma emissions_of_instruction?_ne (hi : m.instruction? ≠ some .output) : m.emissions = [] :=
  if_neg fun h => hi h.2

/-- An instruction that is no output makes no attempts. -/
lemma emissions_of_ne_output {i : Instruction} (hi : m.instruction? = some i) (ho : i ≠ .output) :
    m.emissions = [] :=
  emissions_of_instruction?_ne (by simpa [hi] using ho)

/-- A single step is an act. -/
lemma acts_next (m : Machine) : Acts m m.emissions m.next.2 := by
  rcases hnext : m.next with ⟨fault | report, m'⟩
  · rcases next_eq_error_iff.mp hnext with ⟨hend, -, rfl⟩ | ⟨hf, i, hi, he⟩
    · have hnone : m'.emissions = [] := by
        rcases hend with hf | hi
        · exact emissions_of_finished hf
        · exact emissions_of_instruction?_ne (by simp [hi])
      rw [hnone]
      exact .idle m'
    · exact .execute hf hi he
  · obtain ⟨hf, i, hi, he, -⟩ := next_eq_ok_iff.mp hnext
    exact .execute hf hi he

/-- A step of a run is an act. -/
lemma acts_advance (hf : m.finished = false) : Acts m m.emissions m.advance.state := by
  cases ha : m.advance with
  | running m' =>
    obtain ⟨i, hi, he⟩ := advance_eq_running_iff.mp ha
    exact .execute hf hi he
  | ended r m' =>
    rcases advance_eq_ended_iff.mp ha with ⟨hi, hfinish⟩ | ⟨i, fault, hi, he, -⟩
    · rw [emissions_of_instruction?_ne (by simp [hi])]
      exact .finish hf hi hfinish
    · exact .execute hf hi he

end Machine

/-- A step of a session is an act. -/
lemma Session.acts_step {s : Session} (hw : s.wiring = .separate) :
    s.step.state.wiring = .separate ∧ Acts s.machine s.emissions s.step.state.machine := by
  cases hf : s.machine.finished with
  | true =>
    have hnone : s.emissions = [] := by
      unfold emissions
      split
      · exact emissions_of_finished hf
      · rfl
    simp only [step, hf, if_true, hnone]
    exact ⟨hw, .idle _⟩
  | false =>
    cases hp : s.phase with
    | executing suspending =>
      have hacts := acts_advance hf
      simp only [step_of_executing hf hp, emissions, hp]
      cases ha : s.machine.advance with
      | running m =>
        obtain ⟨report, hnext⟩ := (advance_eq_running_iff_next hf).mp ha
        rw [ha] at hacts
        rw [advance_of_next hnext]
        split
        · split <;> exact ⟨hw, hacts⟩
        · exact ⟨hw, hacts⟩
      | ended r m =>
        rw [ha] at hacts
        rw [advance_of_ended hf ha]
        exact ⟨hw, hacts⟩
    | asking report =>
      simp only [step_of_asking hf hw hp, emissions, hp]
      split
      · exact ⟨hw, .idle _⟩
      · exact ⟨hw, .idle _⟩
      · rename_i how d _
        cases how with
        | step | proceed => exact ⟨hw, .idle _⟩
        | quit => exact ⟨hw, .quit _⟩

section Preserved

variable {P : List Emission → Machine → Prop}
  (hacts : ∀ made more m m', P made m → Acts m more m' → P (made ++ more) m')
  {call : Call} {calls : List (Call × Returned)} {status : Option Returned} {m m' : Machine}
  {earlier made : List Emission}

include hacts

/-- What every act preserves is preserved by the steps of a run. -/
lemma Machine.emits_preserves (hf : m.finished = false)
    (h : Progress.Emits Machine.advance Machine.emissions m made m') (hm : P earlier m) :
    P (earlier ++ made) m' ∧ m'.finished = false := by
  refine h.preserves (P := fun given m => P given m ∧ m.finished = false) ?_ ⟨hm, hf⟩
  rintro given m m' ⟨hP, hf⟩ hrun
  have hact := acts_advance hf
  obtain ⟨report, hnext⟩ := (advance_eq_running_iff_next hf).mp hrun
  rw [hrun] at hact
  exact ⟨hacts _ _ _ _ hP hact, (next_frame hnext).2.1.trans hf⟩

/-- What every act preserves is preserved by the steps of a session. -/
lemma Session.emits_preserves {s s' : Session} (hw : s.wiring = .separate)
    (h : Progress.Emits Session.step Session.emissions s made s') (hs : P earlier s.machine) :
    P (earlier ++ made) s'.machine ∧ s'.wiring = .separate := by
  refine h.preserves (P := fun given s => P given s.machine ∧ s.wiring = .separate) ?_ ⟨hs, hw⟩
  rintro given s s' ⟨hP, hw⟩ hrun
  obtain ⟨hw', hact⟩ := acts_step hw
  rw [hrun] at hw' hact
  exact ⟨hacts _ _ _ _ hP hact, hw'⟩

/-- **What every act preserves holds at every moment** in the course of a call. -/
theorem Call.Course.preserves (h : call.Course m made status m') (hm : P earlier m) :
    P (earlier ++ made) m' := by
  cases h with
  | begun => rwa [List.append_nil]
  | runFinished => rwa [List.append_nil]
  | step h | stepFails h =>
    have hact := m.acts_next
    rw [h] at hact
    exact hacts _ _ _ _ hm hact
  | running hf h => exact (emits_preserves hacts hf h hm).1
  | run hf h hend | runFails hf h hend =>
    obtain ⟨hP, hf'⟩ := emits_preserves hacts hf h hm
    have hact := acts_advance hf'
    rw [hend] at hact
    rw [← List.append_assoc]
    exact hacts _ _ _ _ hP hact
  | debugging h => exact (Session.emits_preserves hacts rfl h hm).1
  | debug h hend =>
    obtain ⟨hP, hw'⟩ := Session.emits_preserves hacts rfl h hm
    have hact := (Session.acts_step hw').2
    rw [hend] at hact
    rw [← List.append_assoc]
    exact hacts _ _ _ _ hP hact

/-- What every act preserves holds after any calls. -/
theorem Calls.History.preserves (h : History m calls made m') (hm : P earlier m) :
    P (earlier ++ made) m' := by
  induction h generalizing earlier with
  | nil => rwa [List.append_nil]
  | cons h _ ih =>
    rw [← List.append_assoc]
    exact ih (h.preserves hacts hm)

end Preserved

end TapeMachine

import Mathlib.Tactic
import TapeMachine.Proofs.Machine.Folding
import TapeMachine.Proofs.Machine.Walk
import TapeMachine.Proofs.Tape.Growth

/-!
# Where a machine stands

A machine stands in its program, or at its end, and on its tape. It leaves the tape only where the
limit refuses a move. There it is stuck: it keeps standing at this move, and executes nothing any
more.

## Main definitions

* `TapeMachine.Machine.Stored` — the current cell is stored.
* `TapeMachine.Machine.Stuck` — the machine stands at a move that the limit of its tape refuses.
* `TapeMachine.Machine.Placed` — the machine stands in its program, and on its tape or stuck.
* `TapeMachine.Machine.Visits` — the tape has grown to the cell that is current afterwards.
* `TapeMachine.Machine.Travels` — a machine gets from one such state to another.

## Main results

* `TapeMachine.Machine.target_lt` — jumps stay in the program.
* `TapeMachine.Machine.Placed.exists_execute` — changes of the current cell do not fail.
* `TapeMachine.Machine.travels_of_ok`, `TapeMachine.Machine.travels_of_error` — what the execution
  of an instruction does to the place of a machine.
* `TapeMachine.Machine.Stuck.execute` — a machine that is stuck stays so.
* `TapeMachine.Machine.Walk.travels` — the same for a walk.
-/

set_option autoImplicit false

namespace TapeMachine

namespace Machine

variable {m m' m₁ : Machine} {i : Instruction} {fault : Fault} {f : UInt8 → UInt8}

/-- The current cell is stored. -/
def Stored (m : Machine) : Prop := m.tape.extent.1 ≤ m.dp ∧ m.dp ≤ m.tape.extent.2

/-- The machine has left the stored cells by a move that the limit of its tape refuses, and stands
at this move. -/
structure Stuck (m : Machine) : Prop where
  refused : m.tape.refusal? m.dp ≠ none
  beyond : m.instruction? = some .right ∧ m.tape.extent.2 < m.dp ∨
    m.instruction? = some .left ∧ m.dp < m.tape.extent.1

/-- The machine stands in its program or at its end, and on its tape unless it is stuck. -/
structure Placed (m : Machine) : Prop where
  pc_le : m.pc ≤ m.program.size
  pointer : m.Stored ∨ m.Stuck

/-- Whether an instruction changes the current cell, or reads input into it. -/
def updates : Instruction → Bool
  | .incr _ | .decr _ | .input => true
  | _ => false

/-! ## The program -/

/-- There is no instruction at the end of the program, and only there. -/
lemma instruction?_eq_none_iff (h : m.pc ≤ m.program.size) :
    m.instruction? = none ↔ m.pc = m.program.size := by
  rw [instruction?, Array.getElem?_eq_none_iff]
  exact ⟨h.antisymm, fun h => h.ge⟩

/-- A machine that executes an instruction does not stand at the end. -/
lemma pc_lt (hi : m.instruction? = some i) : m.pc < m.program.size :=
  (Array.getElem?_eq_some_iff.mp hi).1

/-- **Jumps stay in the program.** -/
lemma target_lt (hi : m.instruction? = some .loopOpen ∨ m.instruction? = some .loopClose) :
    m.program.jumps.target m.pc < m.program.size := by
  rcases hi with ho | hc
  · exact (Array.getElem?_eq_some_iff.mp (partner_of_loopOpen ho)).1
  · exact (Array.getElem?_eq_some_iff.mp (partner_of_loopClose hc)).1

/-- An instruction that succeeds leaves the machine in its program or at its end. -/
lemma pc_le_of_ok (hi : m.instruction? = some i) (he : m.execute i = (.ok (), m')) :
    m'.pc ≤ m'.program.size := by
  have hlt := pc_lt hi
  by_cases hb : i = .loopOpen ∨ i = .loopClose
  · have htarget : m.program.jumps.target m.pc < m.program.size := by
      apply target_lt
      rw [hi]
      simpa using hb
    rcases hb with rfl | rfl <;>
    · cases he
      show (if _ then _ else _) + 1 ≤ m.program.size
      split <;> omega
  · obtain ⟨ho, hc⟩ := not_or.mp hb
    rw [place_of_ok ho hc he]
    exact hlt

/-! ## Single instructions -/

/-- A stored cell is not refused. -/
lemma Stored.refusal?_eq_none (h : m.Stored) : m.tape.refusal? m.dp = none :=
  Tape.refusal?_of_shortfall _ _ ((Tape.shortfall_eq_zero_iff _ _).mpr h)

/-- A machine that is stuck does not stand on its tape. -/
lemma Stuck.not_stored (h : m.Stuck) : ¬ m.Stored := fun hs => h.refused hs.refusal?_eq_none

/-- **A stored cell can be changed**, and the tape does not grow by it. -/
lemma Stored.exists_updateCell (h : m.Stored) (f : UInt8 → UInt8) :
    ∃ m', m.updateCell f = (.ok (), m') ∧ m'.tape.extent = m.tape.extent := by
  have hstored := (Tape.shortfall_eq_zero_iff m.tape m.dp).mpr h
  refine ⟨_, updateCell_of_refusal?_eq_none h.refusal?_eq_none, ?_⟩
  simp [Tape.extend_of_shortfall _ _ hstored]

/-- On a stored cell every instruction that changes it or reads input into it succeeds, and the tape
does not grow by it. -/
lemma Stored.exists_execute (h : m.Stored) (hi : updates i = true) :
    ∃ m', m.execute i = (.ok (), m') ∧ m'.tape.extent = m.tape.extent := by
  cases i with
  | incr n => exact h.exists_updateCell (· + n)
  | decr n => exact h.exists_updateCell (· - n)
  | input =>
    have hread : ({ m with input := m.input.readByte.2 } : Machine).Stored := h
    exact hread.exists_updateCell fun _ => m.input.readByte.1
  | _ => cases hi

/-- A machine that is stuck stands at a move. -/
lemma Stuck.move (h : m.Stuck) : m.instruction? = some .right ∨ m.instruction? = some .left :=
  h.beyond.imp And.left And.left

/-- **An instruction that changes the current cell or reads input into it succeeds** wherever a
machine can come upon it, and the tape does not grow by it. -/
theorem Placed.exists_execute (hm : m.Placed) (hi : m.instruction? = some i)
    (hu : updates i = true) :
    ∃ m', m.execute i = (.ok (), m') ∧ m'.tape.extent = m.tape.extent := by
  rcases hm.pointer with hs | hs
  · exact hs.exists_execute hu
  · -- a machine that is stuck stands at a move
    rcases hs.move with hmove | hmove <;>
    · rw [hmove] at hi
      cases hi
      cases hu

/-- A machine has visited the cell that is current afterwards: the cell was not refused, and the
tape has grown to it and no further. -/
structure Visits (m m' : Machine) : Prop where
  allowed : m.tape.refusal? m'.dp = none
  limit : m'.tape.limit = m.tape.limit
  extent : m'.tape.extent = (m.tape.extend m'.dp).extent

/-- A cell that was visited is stored. -/
lemma Visits.stored (h : Visits m m') : m'.Stored := by
  rw [Stored, h.extent, ← Tape.shortfall_eq_zero_iff]
  exact Tape.shortfall_extend_self _ _

/-- A stored cell that is still current has been visited. -/
lemma Stored.visits_of_eq (h : m.Stored) (htape : m'.tape = m.tape) (hdp : m'.dp = m.dp) :
    Visits m m' := by
  have hstored := (Tape.shortfall_eq_zero_iff m.tape m.dp).mpr h
  constructor
  · rw [hdp]
    exact h.refusal?_eq_none
  · rw [htape]
  · rw [htape, hdp, Tape.extend_of_shortfall _ _ hstored]

/-- An update that succeeds visits the current cell. -/
lemma visits_of_updateCell (h : m.updateCell f = (.ok (), m')) : Visits m m' := by
  unfold updateCell at h
  split at h
  · cases h
  · rename_i hnone
    cases h
    exact ⟨hnone, by simp [advanceFrom], by simp [advanceFrom]⟩

/-- A move that succeeds visits the cell that it leads to. -/
lemma visits_of_moveTo {a : Int} (h : m.moveTo a = (.ok (), m')) : Visits m m' := by
  unfold moveTo at h
  split at h
  · cases h
  · rename_i hnone
    cases h
    exact ⟨hnone, Tape.limit_extend _ _, rfl⟩

/-- **Every instruction that succeeds** on a stored cell visits the cell that is current then. -/
lemma Stored.visits (h : m.Stored) (he : m.execute i = (.ok (), m')) : Visits m m' := by
  cases i with
  | right | left => exact visits_of_moveTo he
  | incr | decr => exact visits_of_updateCell he
  | input =>
    have hvisits := visits_of_updateCell (m := { m with input := m.input.readByte.2 }) he
    exact ⟨hvisits.allowed, hvisits.limit, hvisits.extent⟩
  | output =>
    simp only [execute, emit] at he
    split at he
    · cases he
    · cases he
      exact h.visits_of_eq rfl rfl
  | loopOpen | loopClose =>
    cases he
    exact h.visits_of_eq rfl rfl

/-- A move that fails leaves the machine at it, with the data pointer moved. -/
lemma moveTo_of_error {a : Int} (h : m.moveTo a = (.error fault, m')) :
    m.tape.refusal? a ≠ none ∧ (∃ refusal, fault = .outOfCells refusal) ∧
      m' = { m with dp := a } := by
  unfold moveTo at h
  split at h
  · rename_i refusal hsome
    cases h
    exact ⟨by simp [hsome], ⟨refusal, rfl⟩, rfl⟩
  · cases h

/-- A move to a refused cell fails. -/
lemma moveTo_of_refusal? {a : Int} (h : m.tape.refusal? a ≠ none) :
    ∃ refusal, m.moveTo a = (.error (.outOfCells refusal), { m with dp := a }) := by
  obtain ⟨refusal, hsome⟩ := Option.ne_none_iff_exists'.mp h
  exact ⟨refusal, by simp only [moveTo, hsome]⟩

/-- **A machine that is stuck stays so**: its move is refused again, and leads still further away.
-/
theorem Stuck.execute (h : m.Stuck) (hi : m.instruction? = some i) :
    ∃ refusal m', m.execute i = (.error (.outOfCells refusal), m') ∧ m'.tape = m.tape ∧
      m'.Stuck := by
  rcases h.beyond with ⟨hright, hlt⟩ | ⟨hleft, hlt⟩
  · rw [hright] at hi
    cases hi
    have hrefused := Tape.refusal?_of_beyond h.refused (b := m.dp + 1) (Or.inl ⟨hlt, by omega⟩)
    obtain ⟨refusal, hmove⟩ := moveTo_of_refusal? hrefused
    refine ⟨refusal, _, hmove, rfl, hrefused, Or.inl ⟨hright, ?_⟩⟩
    show m.tape.extent.2 < m.dp + 1
    omega
  · rw [hleft] at hi
    cases hi
    have hrefused := Tape.refusal?_of_beyond h.refused (b := m.dp - 1) (Or.inr ⟨hlt, by omega⟩)
    obtain ⟨refusal, hmove⟩ := moveTo_of_refusal? hrefused
    refine ⟨refusal, _, hmove, rfl, hrefused, Or.inr ⟨hleft, ?_⟩⟩
    show m.dp - 1 < m.tape.extent.1
    omega

/-- **Where an instruction fails on a stored cell** the tape is as it was. Either a stream has
failed, and the machine still stands on its tape, or the cells do not suffice for a move. -/
lemma Stored.cases_of_error (h : m.Stored) (hi : m.instruction? = some i)
    (he : m.execute i = (.error fault, m')) :
    m'.tape = m.tape ∧
      ((∃ cause, fault = .io cause) ∧ m'.Stored ∨
        (∃ refusal, fault = .outOfCells refusal) ∧ m'.Stuck) := by
  have hupdate : ¬ updates i = true := by
    intro hu
    obtain ⟨m₁, hok, -⟩ := h.exists_execute hu
    rw [hok] at he
    cases he
  cases i with
  | right =>
    obtain ⟨hrefused, hfault, rfl⟩ := moveTo_of_error he
    have hbeyond : m.tape.extent.2 < m.dp + 1 := by
      have hout := Tape.outside_of_refusal? hrefused
      have hle := h.1
      omega
    exact ⟨rfl, Or.inr ⟨hfault, hrefused, Or.inl ⟨hi, hbeyond⟩⟩⟩
  | left =>
    obtain ⟨hrefused, hfault, rfl⟩ := moveTo_of_error he
    have hbeyond : m.dp - 1 < m.tape.extent.1 := by
      have hout := Tape.outside_of_refusal? hrefused
      have hle := h.2
      omega
    exact ⟨rfl, Or.inr ⟨hfault, hrefused, Or.inr ⟨hi, hbeyond⟩⟩⟩
  | incr | decr | input => exact absurd rfl hupdate
  | output =>
    simp only [execute, emit] at he
    split at he
    · rename_i cause _ _
      cases he
      exact ⟨rfl, Or.inl ⟨⟨cause, rfl⟩, h⟩⟩
    · cases he
  | loopOpen | loopClose => cases he

/-- A machine to which cells are refused is stuck. -/
lemma stuck_of_outOfCells (hm : m.Placed) (hi : m.instruction? = some i) {refusal : OutOfCells}
    (he : m.execute i = (.error (.outOfCells refusal), m')) : m'.Stuck := by
  rcases hm.pointer with hs | hs
  · obtain ⟨-, ⟨⟨cause, hio⟩, -⟩ | ⟨-, hstuck⟩⟩ := hs.cases_of_error hi he
    · cases hio
    · exact hstuck
  · obtain ⟨refusal', m₁, herror, -, hstuck⟩ := hs.execute hi
    rw [herror] at he
    cases he
    exact hstuck

/-! ## Travels -/

/-- A machine gets from one state to another: it still stands in its program, the tape has grown
just as far as it takes to store the addresses that were visited, and if the machine has left the
tape then it was refused a move. -/
structure Travels (m m' : Machine) (visited : Set Int) (refused : Prop) : Prop where
  program : m'.program = m.program
  placed : m'.Placed
  grown : m.tape.GrownBy m'.tape visited
  stored : m.Stored → m'.Stored ∨ refused

namespace Travels

variable {visited visited' : Set Int} {refused refused' : Prop}

/-- One travel after another. -/
lemma trans (h : Travels m m₁ visited refused) (h' : Travels m₁ m' visited' refused') :
    Travels m m' (visited ∪ visited') (refused ∨ refused') where
  program := h'.program.trans h.program
  placed := h'.placed
  grown := h.grown.trans h'.grown
  stored hs := by
    rcases h.stored hs with hs₁ | hr
    · exact (h'.stored hs₁).imp_right Or.inr
    · exact Or.inr (Or.inl hr)

/-- A machine that stands where it stood has visited nothing. -/
lemma of_eq (hm : m.Placed) (hprogram : m'.program = m.program) (hpc : m'.pc = m.pc)
    (hdp : m'.dp = m.dp) (htape : m'.tape = m.tape) : Travels m m' ∅ False := by
  have hi : m'.instruction? = m.instruction? := by rw [instruction?, hprogram, hpc, instruction?]
  refine ⟨hprogram, ⟨?_, ?_⟩, .of_extent (congrArg _ htape) (congrArg _ htape), fun hs => ?_⟩
  · rw [hprogram, hpc]
    exact hm.pc_le
  · refine hm.pointer.imp (fun hs => ?_) fun hs => ⟨?_, ?_⟩
    · rwa [Stored, htape, hdp]
    · rw [htape, hdp]
      exact hs.refused
    · rw [hi, htape, hdp]
      exact hs.beyond
  · rw [Stored, htape, hdp]
    exact Or.inl hs

/-- The reason for leaving the tape may be given in other words. -/
lemma imp (h : Travels m m' visited refused) (hr : refused → refused') :
    Travels m m' visited refused' :=
  { h with stored := fun hs => (h.stored hs).imp_right hr }

end Travels

/-- The end of a run visits nothing. -/
lemma travels_of_finish (hm : m.Placed) {r : Except Fault Stats} (h : m.finish = (r, m')) :
    Travels m m' ∅ False := by
  unfold finish at h
  split at h <;>
  · cases h
    exact .of_eq hm rfl rfl rfl rfl

/-- An instruction that succeeds visits the cell that is current then. -/
theorem travels_of_ok (hm : m.Placed) (hi : m.instruction? = some i)
    (he : m.execute i = (.ok (), m')) : Travels m m' {m'.dp} False := by
  rcases hm.pointer with hs | hs
  · have hvisits := hs.visits he
    exact ⟨(counted_of_ok he).1, ⟨pc_le_of_ok hi he, Or.inl hvisits.stored⟩,
      .single hvisits.allowed hvisits.limit hvisits.extent, fun _ => Or.inl hvisits.stored⟩
  · obtain ⟨refusal, m₁, herror, -⟩ := hs.execute hi
    rw [herror] at he
    cases he

/-- An instruction that fails visits nothing, and makes the machine leave its tape only for want of
cells. -/
theorem travels_of_error (hm : m.Placed) (hi : m.instruction? = some i)
    (he : m.execute i = (.error fault, m')) :
    Travels m m' ∅ (∃ refusal, fault = .outOfCells refusal) := by
  have hplace := place_of_error he
  have hprogram : m'.program = m.program := by rw [hplace]; rfl
  have hpc : m'.pc ≤ m'.program.size := by rw [hplace]; exact hm.pc_le
  have hgrown : m'.tape = m.tape → m.tape.GrownBy m'.tape ∅ := fun htape =>
    .of_extent (congrArg _ htape) (congrArg _ htape)
  rcases hm.pointer with hs | hs
  · obtain ⟨htape, ⟨-, hs'⟩ | ⟨hfault, hs'⟩⟩ := hs.cases_of_error hi he
    · exact ⟨hprogram, ⟨hpc, Or.inl hs'⟩, hgrown htape, fun _ => Or.inl hs'⟩
    · exact ⟨hprogram, ⟨hpc, Or.inr hs'⟩, hgrown htape, fun _ => Or.inr hfault⟩
  · obtain ⟨refusal, m₁, herror, htape, hs'⟩ := hs.execute hi
    rw [herror] at he
    cases he
    exact ⟨hprogram, ⟨hpc, Or.inr hs'⟩, hgrown htape, fun _ => Or.inr ⟨refusal, rfl⟩⟩

/-- **A walk visits** the cells that are current behind its steps. -/
theorem Walk.travels {steps : List Step} (h : Walk m steps m') (hm : m.Placed) :
    Travels m m' {a | ∃ report ∈ steps, report.dp = a} False := by
  induction h with
  | nil m =>
    have htravels := Travels.of_eq hm rfl rfl rfl rfl
    simpa using htravels
  | @cons m m₁ m' step steps h _ ih =>
    obtain ⟨-, i, hi, he, rfl⟩ := next_eq_ok_iff.mp h
    have hfirst := travels_of_ok hm hi he
    have htravels := hfirst.trans (ih hfirst.placed)
    rw [or_self] at htravels
    convert htravels using 1
    ext a
    simp [eq_comm]

end Machine

end TapeMachine

import Mathlib.Tactic
import TapeMachine.Proofs.Machine.Folding
import TapeMachine.Proofs.Machine.Walk

/-!
# Testing again at the partner

In the table of transitions a jump leads to the partner bracket, which is then executed like any
other instruction. The machine goes on behind the partner instead. The two ways of jumping are told
apart by nothing but the count of instructions: the partner is the opposite bracket, it tests the
same cell, and so it never jumps back.

## Main definitions

* `TapeMachine.Progress.after` — the state of an activity after a number of steps.
* `TapeMachine.Retest.nextPosition` — the column of the table that says where to go on.
* `TapeMachine.Retest.execute`, `TapeMachine.Retest.run` — the machine of the table.
* `TapeMachine.jumpsTaken` — the jumps among the steps of a walk.
* `TapeMachine.Retest.SameRuns` — the machine and that of the table do the same.

## Main results

* `TapeMachine.Retest.after_of_next` — a step of the machine is one step of the table, or two if it
  jumps.
* `TapeMachine.Retest.after_of_walk` — every state of the machine is a state of the table, as much
  later as there have been jumps.
* `TapeMachine.Retest.step_past_partner` — the two machines have the same runs.
-/

set_option autoImplicit false

namespace TapeMachine

/-! ## Counted steps -/

namespace Progress

variable {σ α : Type} {step : σ → Progress σ α} {s s' t u : σ} {r : α} {n k : Nat}

/-- The state of an activity after a number of steps; there is none if it has ended by then. -/
def after (step : σ → Progress σ α) : Nat → σ → Option σ
  | 0, s => some s
  | n + 1, s =>
    match step s with
    | .running s' => after step n s'
    | .ended _ _ => none

lemma after_succ_of_running (h : step s = .running s') (n : Nat) :
    after step (n + 1) s = after step n s' := by
  simp only [after, h]

/-- Steps follow one another. -/
lemma after_add (h : after step n s = some t) (k : Nat) :
    after step (n + k) s = after step k t := by
  induction n generalizing s with
  | zero =>
    cases h
    rw [Nat.zero_add]
  | succ n ih =>
    cases hs : step s with
    | ended r s' => simp [after, hs] at h
    | running s' =>
      rw [after_succ_of_running hs] at h
      rw [Nat.succ_add, after_succ_of_running hs]
      exact ih h

/-- An activity ends after some number of steps. -/
lemma halts_iff_after :
    Halts step s r t ↔ ∃ n s', after step n s = some s' ∧ step s' = .ended r t := by
  constructor
  · intro h
    induction h with
    | ended h => exact ⟨0, _, rfl, h⟩
    | running h _ ih =>
      obtain ⟨n, s', hafter, hend⟩ := ih
      exact ⟨n + 1, s', (after_succ_of_running h n).trans hafter, hend⟩
  · rintro ⟨n, s', hafter, hend⟩
    induction n generalizing s with
    | zero =>
      cases hafter
      exact .ended hend
    | succ n ih =>
      cases hs : step s with
      | ended r s' => simp [after, hs] at hafter
      | running s₁ =>
        rw [after_succ_of_running hs] at hafter
        exact .running hs (ih hafter)

/-- An activity that ends after some steps has no states behind them. -/
lemma le_of_after_of_ended (h : after step n s = some s') (hend : step s' = .ended r t)
    (h' : after step k s = some u) : k ≤ n := by
  by_contra hlt
  obtain ⟨d, rfl⟩ : ∃ d, k = n + (d + 1) := ⟨k - n - 1, by omega⟩
  rw [after_add h] at h'
  simp [after, hend] at h'

end Progress

/-! ## The machine of the table -/

namespace Retest

open Machine

/-- Where the machine goes on behind an instruction: a jump leads to the partner bracket. -/
def nextPosition (m : Machine) : Instruction → Nat
  | .loopOpen => if m.cell = 0 then m.program.jumps.target m.pc else m.pc + 1
  | .loopClose => if m.cell ≠ 0 then m.program.jumps.target m.pc else m.pc + 1
  | _ => m.pc + 1

/-- The execution of an instruction: it has its usual effect, and where the machine goes on is read
off the table. -/
def execute (m : Machine) (i : Instruction) : Except Fault Unit × Machine :=
  match m.execute i with
  | (.error fault, m') => (.error fault, m')
  | (.ok (), m') => (.ok (), { m' with pc := nextPosition m i })

/-- One step of a run: the next instruction, or the end of the run behind the last one. -/
def advance (m : Machine) : Progress Machine (Except Fault Stats) :=
  match m.instruction? with
  | none =>
    match m.finish with
    | (result, m) => .ended result m
  | some i =>
    match execute m i with
    | (.error fault, m) => .ended (.error fault) m
    | (.ok (), m) => .running m

/-- Runs the program to its end. The result is `none` if `fuel` steps do not suffice. -/
def run (fuel : Nat) (m : Machine) : Option (Except Fault Stats × Machine) :=
  if m.finished then some (.error .alreadyFinished, m) else Progress.iterate advance fuel m

/-- The run ends with a result. -/
def RunsTo (m : Machine) (r : Except Fault Stats) (m' : Machine) : Prop :=
  ∃ fuel, run fuel m = some (r, m')

/-- The run does not end. -/
def Diverges (m : Machine) : Prop := ∀ fuel, run fuel m = none

end Retest

/-! ## Jumps -/

/-- The step jumped: a `[` that found the cell 0, or a `]` that found it different from 0. -/
def Step.jumped (step : Step) : Bool :=
  match step.instruction with
  | .loopOpen => step.cell == 0
  | .loopClose => step.cell != 0
  | _ => false

namespace Machine

variable {m m' : Machine} {i : Instruction}

/-- The number of jumps among the steps of a walk. -/
def jumpsTaken (steps : List Step) : Nat := steps.countP Step.jumped

lemma jumpsTaken_cons (step : Step) (steps : List Step) :
    jumpsTaken (step :: steps) = jumpsTaken [step] + jumpsTaken steps := by
  rw [jumpsTaken, jumpsTaken, jumpsTaken, ← List.countP_append, List.singleton_append]

/-- The same machine with more instructions counted. -/
def recount (m : Machine) (extra : Nat) : Machine :=
  m.relocate m.program m.pc (m.executed + extra)

/-- No instruction depends on the count. -/
lemma execute_recount (m : Machine) (i : Instruction) (extra : Nat) :
    (m.recount extra).execute i = ((m.execute i).1, (m.execute i).2.recount extra) := by
  have hcount : m.executed + extra + 1 = m.executed + 1 + extra := by omega
  by_cases hb : i = .loopOpen ∨ i = .loopClose
  · rcases hb with rfl | rfl <;>
    · simp only [execute, branch, advanceFrom, recount, relocate, cell, hcount]
      rfl
  · obtain ⟨ho, hc⟩ := not_or.mp hb
    rw [recount, execute_relocate _ _ _ ho hc]
    rcases he : m.execute i with ⟨fault | _, m'⟩
    · rw [place_of_error he]
      rfl
    · rw [place_of_ok ho hc he, outcomeAt, hcount]
      rfl

end Machine

namespace Retest

open Machine Progress

variable {m m' m₁ : Machine} {i : Instruction} {fault : Fault} {step : Step}
  {r : Except Fault Stats}

/-! ## One step -/

/-- An instruction that succeeds in the table's machine leads on. -/
lemma advance_of_ok (hi : m.instruction? = some i) (he : execute m i = (.ok (), m')) :
    advance m = .running m' := by
  simp only [advance, hi, he]

/-- The table does not depend on the count. -/
lemma nextPosition_recount (m : Machine) (extra : Nat) (i : Instruction) :
    nextPosition (m.recount extra) i = nextPosition m i := by
  cases i <;> rfl

/-- Where the table agrees about the place to go on, the two machines execute an instruction
alike. -/
lemma execute_of_ok (he : m.execute i = (.ok (), m')) (hpc : nextPosition m i = m'.pc)
    (extra : Nat) : execute (m.recount extra) i = (.ok (), m'.recount extra) := by
  simp only [execute, execute_recount, he, nextPosition_recount, hpc]
  rfl

/-- An instruction fails in both machines alike. -/
lemma execute_of_error (he : m.execute i = (.error fault, m')) (extra : Nat) :
    execute (m.recount extra) i = (.error fault, m'.recount extra) := by
  simp only [execute, execute_recount, he]

/-- A bracket is counted, and the table says where to go on. -/
lemma execute_bracket (m : Machine) (hb : i = .loopOpen ∨ i = .loopClose) :
    execute m i = (.ok (), m.relocate m.program (nextPosition m i) (m.executed + 1)) := by
  rcases hb with rfl | rfl <;> rfl

/-- Without a jump the machine goes on where the table says. -/
lemma nextPosition_of_not_jumped (he : m.execute i = (.ok (), m'))
    (hj : Step.jumped ⟨m.pc, i, m'.pc, m'.dp, m'.cell⟩ = false) :
    nextPosition m i = m'.pc := by
  cases i with
  | loopOpen =>
    cases he
    have hcell : (m.cell == 0) = false := hj
    simp only [nextPosition, if_neg (ne_of_beq_false hcell), hcell, advanceFrom]
    rfl
  | loopClose =>
    cases he
    have hcell : (m.cell != 0) = false := hj
    have hzero : m.cell = 0 := bne_eq_false_iff_eq.mp hcell
    simp only [nextPosition, if_neg (not_not.mpr hzero), hcell, advanceFrom]
    rfl
  | _ =>
    rw [place_of_ok (by simp) (by simp) he]
    rfl

/-- **The partner of a bracket that jumps** is the opposite bracket, and it falls through on the
same cell. -/
lemma exists_partner (hi : m.instruction? = some i) (he : m.execute i = (.ok (), m'))
    (hj : Step.jumped ⟨m.pc, i, m'.pc, m'.dp, m'.cell⟩ = true) :
    ∃ partner, m.program.instructions[m.program.jumps.target m.pc]? = some partner ∧
      (i = .loopOpen ∧ partner = .loopClose ∨ i = .loopClose ∧ partner = .loopOpen) ∧
      nextPosition m i = m.program.jumps.target m.pc ∧
      m' = m.relocate m.program (m.program.jumps.target m.pc + 1) (m.executed + 1) ∧
      ∀ n : Machine, n.cell = m.cell → nextPosition n partner = n.pc + 1 := by
  cases i with
  | loopOpen =>
    cases he
    have hcell : m.cell = 0 := eq_of_beq hj
    refine ⟨.loopClose, partner_of_loopOpen hi, Or.inl ⟨rfl, rfl⟩, if_pos hcell, ?_,
      fun n hn => if_neg (not_not.mpr (hn.trans hcell))⟩
    simp only [hcell, advanceFrom, relocate, beq_self_eq_true, if_true]
  | loopClose =>
    cases he
    have hcell : m.cell ≠ 0 := bne_iff_ne.mp hj
    refine ⟨.loopOpen, partner_of_loopClose hi, Or.inr ⟨rfl, rfl⟩, if_pos hcell, ?_,
      fun n hn => if_neg (hn ▸ hcell)⟩
    simp only [bne_iff_ne.mpr hcell, advanceFrom, relocate, if_true]
  | _ => cases hj

/-- **A jump is two steps of the table**: one to the partner, and one past it. -/
lemma after_of_jumped (hi : m.instruction? = some i) (he : m.execute i = (.ok (), m'))
    (hj : Step.jumped ⟨m.pc, i, m'.pc, m'.dp, m'.cell⟩ = true) (extra : Nat) :
    after advance 2 (m.recount extra) = some (m'.recount (extra + 1)) := by
  obtain ⟨partner, hpartner, hpair, hjump, rfl, hfall⟩ := exists_partner hi he hj
  have hfirst : advance (m.recount extra) =
      .running (m.relocate m.program (m.program.jumps.target m.pc) (m.executed + extra + 1)) := by
    refine advance_of_ok hi ((execute_bracket _ (hpair.imp And.left And.left)).trans ?_)
    rw [nextPosition_recount, hjump]
    rfl
  have hsecond : ∀ count, advance (m.relocate m.program (m.program.jumps.target m.pc) count) =
      .running (m.relocate m.program (m.program.jumps.target m.pc + 1) (count + 1)) := by
    intro count
    refine advance_of_ok hpartner
      ((execute_bracket _ (hpair.symm.imp And.right And.right)).trans ?_)
    rw [hfall (m.relocate m.program (m.program.jumps.target m.pc) count) rfl]
    rfl
  rw [after_succ_of_running hfirst, after_succ_of_running (hsecond _)]
  simp only [after, recount, relocate]
  congr 2
  omega

/-- **A step of the machine** is one step of the table, or two if it jumps. -/
lemma after_of_next (h : m.next = (.ok step, m')) (extra : Nat) :
    after advance (1 + jumpsTaken [step]) (m.recount extra) =
      some (m'.recount (extra + jumpsTaken [step])) := by
  obtain ⟨-, i, hi, he, rfl⟩ := next_eq_ok_iff.mp h
  cases hj : Step.jumped ⟨m.pc, i, m'.pc, m'.dp, m'.cell⟩ with
  | true =>
    have hone : jumpsTaken [⟨m.pc, i, m'.pc, m'.dp, m'.cell⟩] = 1 := by
      simp [jumpsTaken, hj]
    rw [hone]
    exact after_of_jumped hi he hj extra
  | false =>
    have hzero : jumpsTaken [⟨m.pc, i, m'.pc, m'.dp, m'.cell⟩] = 0 := by
      simp [jumpsTaken, hj]
    rw [hzero]
    have hstep := execute_of_ok he (nextPosition_of_not_jumped he hj) extra
    exact after_succ_of_running (advance_of_ok (m := m.recount extra) hi hstep) 0

/-- **Where the machine cannot go on** that of the table cannot either, for the same reason. -/
lemma ended_of_ended (h : m.advance = .ended r m') (extra : Nat) :
    ∃ r', advance (m.recount extra) = .ended r' (m'.recount extra) ∧
      SameOutcome r m' r' (m'.recount extra) := by
  rcases advance_eq_ended_iff.mp h with ⟨hnone, hfinish⟩ | ⟨i, fault, hi, he, rfl⟩
  · obtain ⟨r', hfinish', hsame⟩ :=
      finish_relocate hfinish m.program m.pc (m.executed + extra)
    obtain ⟨hprogram, hpc, hexecuted⟩ := finish_frame hfinish
    have hnone' : (m.recount extra).instruction? = none := hnone
    have hplace : m'.relocate m.program m.pc (m.executed + extra) = m'.recount extra := by
      rw [recount, hprogram, hpc, hexecuted]
    rw [hplace, ← recount] at hfinish'
    rw [hplace] at hsame
    exact ⟨r', by simp only [advance, hnone', hfinish'], hsame⟩
  · have hi' : (m.recount extra).instruction? = some i := hi
    refine ⟨.error fault, ?_, Or.inr ⟨fault, rfl, rfl⟩⟩
    simp only [advance, hi', execute_of_error he]

/-! ## Runs -/

/-- **Every state of the machine is a state of the table**, as many steps later as there have been
jumps. -/
theorem after_of_walk {steps : List Step} (h : Walk m steps m') (extra : Nat) :
    after advance (steps.length + jumpsTaken steps) (m.recount extra) =
      some (m'.recount (extra + jumpsTaken steps)) := by
  induction h generalizing extra with
  | nil => rfl
  | @cons _ _ _ step steps h _ ih =>
    have hsplit : (step :: steps).length + jumpsTaken (step :: steps) =
        (1 + jumpsTaken [step]) + (steps.length + jumpsTaken steps) := by
      rw [jumpsTaken_cons, List.length_cons]
      omega
    rw [hsplit, after_add (after_of_next h extra), ih, jumpsTaken_cons step steps, Nat.add_assoc]

/-- The run of a machine that has not finished ends after some number of steps. -/
lemma runsTo_iff_after (hf : m.finished = false) :
    RunsTo m r m' ↔ ∃ n m₁, after advance n m = some m₁ ∧ advance m₁ = .ended r m' := by
  rw [← halts_iff_after]
  unfold RunsTo run
  simp only [hf, Bool.false_eq_true, if_false, halts_iff_iterate]

/-- A run has one result. -/
lemma RunsTo.unique {r' : Except Fault Stats} {m'' : Machine} (hf : m.finished = false)
    (h : RunsTo m r m') (h' : RunsTo m r' m'') : r = r' ∧ m' = m'' := by
  rw [runsTo_iff_after hf, ← halts_iff_after] at h h'
  exact h.unique h'

/-- A run that does not end has no result. -/
lemma diverges_iff_not_runsTo : Diverges m ↔ ∀ r m', ¬ RunsTo m r m' := by
  simp only [Diverges, RunsTo, Option.eq_none_iff_forall_ne_some, Prod.forall, not_exists]
  exact ⟨fun h r m' fuel => h fuel r m', fun h fuel r m' => h r m' fuel⟩

/-- Two runs from the machine `start` did the same: the run of the machine ended with the result `r`
in `m`, and that of the table with `r'` in `m'`. -/
structure SameEnd (start : Machine) (r : Except Fault Stats) (m : Machine)
    (r' : Except Fault Stats) (m' : Machine) : Prop where
  /-- The outcome is the same. -/
  outcome : SameOutcome r m r' m'
  /-- The state is the same, but the table counts each jump twice. -/
  state : ∃ steps m₁, Walk start steps m₁ ∧ m₁.advance = .ended r m ∧
    m' = m.recount (jumpsTaken steps)

/-- The machine and that of the table have the same runs from a state. -/
structure SameRuns (start : Machine) : Prop where
  /-- Every state of the machine occurs in the run of the table. -/
  occurs : ∀ steps m, Walk start steps m →
    after advance (steps.length + jumpsTaken steps) start = some (m.recount (jumpsTaken steps))
  /-- They occur in the same order: the state behind a step follows one step later, or two if the
  step jumps. -/
  in_order : ∀ steps m step m', Walk start steps m → m.next = (.ok step, m') →
    after advance (1 + jumpsTaken [step]) (m.recount (jumpsTaken steps)) =
      some (m'.recount (jumpsTaken (steps ++ [step])))
  /-- Neither run ends, or both do. -/
  diverges : start.Diverges ↔ Diverges start
  /-- If the run of the machine ends that of the table does so too, in the same way. -/
  of_machine : ∀ r m, start.RunsTo r m → ∃ r' m', RunsTo start r' m' ∧ SameEnd start r m r' m'
  /-- If the run of the table ends that of the machine does so too, in the same way. -/
  of_table : ∀ r' m', RunsTo start r' m' → ∃ r m, start.RunsTo r m ∧ SameEnd start r m r' m'

/-- If the run of the machine ends so does that of the table. -/
lemma exists_runsTo_table (hf : m.finished = false) (h : m.RunsTo r m') :
    ∃ r' t, RunsTo m r' t ∧ SameEnd m r m' r' t := by
  obtain ⟨steps, m₁, hw, hend⟩ := (Machine.runsTo_iff_walk hf).mp h
  obtain ⟨r', hend', hsame⟩ := ended_of_ended hend (jumpsTaken steps)
  have hafter := after_of_walk hw 0
  rw [Nat.zero_add] at hafter
  exact ⟨r', _, (runsTo_iff_after hf).mpr ⟨_, _, hafter, hend'⟩, hsame, steps, m₁, hw, hend, rfl⟩

/-- If the run of the table ends so does that of the machine.

**Proof sketch.** The machine makes at most as many steps as the table, so that it has no walk that
is longer than the run of the table. -/
lemma exists_runsTo_machine (hf : m.finished = false) (h : RunsTo m r m') :
    ∃ r' t, m.RunsTo r' t := by
  obtain ⟨n, m₁, hafter, hend⟩ := (runsTo_iff_after hf).mp h
  refine (exists_walk_or_runsTo hf (n + 1)).resolve_left ?_
  rintro ⟨steps, m₂, hw, hlen⟩
  have hle := le_of_after_of_ended hafter hend (after_of_walk hw 0)
  omega

/-- **The machine and that of the table have the same runs** from every state. -/
theorem sameRuns (hf : m.finished = false) : SameRuns m := by
  have hto : ∀ r m', m.RunsTo r m' → ∃ r' t, RunsTo m r' t ∧ SameEnd m r m' r' t :=
    fun _ _ h => exists_runsTo_table hf h
  have hfrom : ∀ r' t, RunsTo m r' t → ∃ r m', m.RunsTo r m' ∧ SameEnd m r m' r' t := by
    intro r' t h
    obtain ⟨r, m', hr⟩ := exists_runsTo_machine hf h
    obtain ⟨r'', t', h', hsame⟩ := hto r m' hr
    obtain ⟨rfl, rfl⟩ := h.unique hf h'
    exact ⟨r, m', hr, hsame⟩
  refine ⟨fun steps m₁ hw => ?_, fun steps m₁ step m₂ _ hs => ?_, ?_, hto, hfrom⟩
  · have hafter := after_of_walk hw 0
    rwa [Nat.zero_add] at hafter
  · have hsum : jumpsTaken (steps ++ [step]) = jumpsTaken steps + jumpsTaken [step] :=
      List.countP_append
    rw [hsum]
    exact after_of_next hs _
  · rw [Machine.diverges_iff_not_runsTo, diverges_iff_not_runsTo]
    constructor
    · intro hd r' t h
      obtain ⟨r, m', hr, -⟩ := hfrom r' t h
      exact hd r m' hr
    · intro hd r m' h
      obtain ⟨r', t, hr', -⟩ := hto r m' h
      exact hd r' t hr'

/-- **To go on behind the partner is to test again at the partner.** Whatever the program, the
set-up, the input and the writer, the machine and that of the table have the same runs, and the
table counts one instruction more for each jump. -/
theorem jump_past_partner_is_retest (program : Program) (config : Config) (reader : Reader)
    (writer : Writer) : SameRuns (.start program config reader writer) :=
  sameRuns rfl

end Retest

end TapeMachine

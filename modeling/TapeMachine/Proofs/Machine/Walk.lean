import Mathlib.Tactic
import TapeMachine.Machine.Basic
import TapeMachine.Proofs.Program.Matching
import TapeMachine.Proofs.Stream.Delivery

/-!
# Walks of a machine

However a machine is driven, it moves along one path of single steps. A walk is a part of this
path; a run is a walk to a machine that cannot go on.

## Main definitions

* `TapeMachine.Progress.Halts`, `TapeMachine.Progress.Reaches` — an activity in steps ends with a
  result, or gets to a state.
* `TapeMachine.Machine.relocate` — a machine in the same state at another place.
* `TapeMachine.Machine.Walk` — single steps that succeed, with their reports.
* `TapeMachine.Machine.RunsTo`, `TapeMachine.Machine.Diverges` — what a run leads to, if it ends.
* `TapeMachine.Machine.emitted` — the bytes that single steps have written.

## Main results

* `TapeMachine.Machine.Walk.pushed` — a walk adds the emitted bytes to those written before.
* `TapeMachine.Machine.runsTo_iff_walk` — a run is a walk to a machine that cannot go on.
* `TapeMachine.Machine.Walk.exists_append` — of two walks from one machine the longer continues
  the shorter.
* `TapeMachine.Machine.exists_walk_or_runsTo` — a machine whose run does not end has walks of every
  length.
-/

set_option autoImplicit false

namespace TapeMachine

namespace Progress

variable {σ α : Type} {step : σ → Progress σ α} {s s' t u : σ} {r : α}

/-- Repeating a step leads to an end with a result. -/
inductive Halts (step : σ → Progress σ α) : σ → α → σ → Prop
  | ended {s t : σ} {r : α} (h : step s = .ended r t) : Halts step s r t
  | running {s s' t : σ} {r : α} (h : step s = .running s') (rest : Halts step s' r t) :
    Halts step s r t

/-- Repeating a step leads to a state, at which the activity has not ended. -/
inductive Reaches (step : σ → Progress σ α) : σ → σ → Prop
  | refl (s : σ) : Reaches step s s
  | running {s s' t : σ} (h : step s = .running s') (rest : Reaches step s' t) :
    Reaches step s t

/-- What is reached from a state that is reached is reached. -/
lemma Reaches.trans (h : Reaches step s s') (h' : Reaches step s' t) : Reaches step s t := by
  induction h with
  | refl => exact h'
  | running hs _ ih => exact .running hs (ih h')

/-- A step that goes on leads to a state that is reached. -/
lemma Reaches.single (h : step s = .running s') : Reaches step s s' := .running h (.refl s')

/-- What an activity reaches, it has reached already or reaches behind the next step. -/
lemma reaches_iff_of_running (h : step s = .running s') :
    Reaches step s t ↔ t = s ∨ Reaches step s' t := by
  constructor
  · rintro (_ | ⟨h', rest⟩)
    · exact Or.inl rfl
    · rw [h] at h'
      cases h'
      exact Or.inr rest
  · rintro (rfl | h')
    · exact .refl t
    · exact .running h h'

/-- An activity that ends in the next step reaches nothing more. -/
lemma reaches_iff_of_ended {s' : σ} (h : step s = .ended r s') : Reaches step s t ↔ t = s := by
  constructor
  · rintro (_ | ⟨h', rest⟩)
    · rfl
    · rw [h] at h'
      cases h'
  · rintro rfl
    exact .refl t

/-- An activity reaches one state only from which it ends in the next step. -/
lemma Reaches.unique {r' : α} {t' u' : σ} (h : Reaches step s t) (hend : step t = .ended r u)
    (h' : Reaches step s t') (hend' : step t' = .ended r' u') : t = t' := by
  induction h with
  | refl => exact ((reaches_iff_of_ended hend).mp h').symm
  | running hs _ ih =>
    rcases (reaches_iff_of_running hs).mp h' with rfl | h'
    · rw [hs] at hend'
      cases hend'
    · exact ih hend h'

/-- An activity ends in the step from a state that it reaches. -/
lemma halts_iff_reaches : Halts step s r t ↔ ∃ s', Reaches step s s' ∧ step s' = .ended r t := by
  constructor
  · intro h
    induction h with
    | ended h => exact ⟨_, .refl _, h⟩
    | running h _ ih =>
      obtain ⟨s', hreaches, hend⟩ := ih
      exact ⟨s', .running h hreaches, hend⟩
  · rintro ⟨s', hreaches, hend⟩
    induction hreaches with
    | refl => exact .ended hend
    | running h _ ih => exact .running h (ih hend)

/-- An activity ends exactly when some fuel suffices for it. -/
lemma halts_iff_iterate : Halts step s r t ↔ ∃ fuel, iterate step fuel s = some (r, t) := by
  constructor
  · intro h
    induction h with
    | ended h => exact ⟨1, by simp only [iterate, h]⟩
    | running h _ ih =>
      obtain ⟨fuel, hfuel⟩ := ih
      exact ⟨fuel + 1, by simp only [iterate, h, hfuel]⟩
  · rintro ⟨fuel, h⟩
    induction fuel generalizing s with
    | zero => simp [iterate] at h
    | succ fuel ih =>
      unfold iterate at h
      cases hs : step s with
      | running s' =>
        rw [hs] at h
        exact .running hs (ih h)
      | ended r' t' =>
        rw [hs] at h
        cases h
        exact .ended hs

/-- A step that goes on does not change where an activity ends. -/
lemma halts_iff_of_running (h : step s = .running s') : Halts step s r t ↔ Halts step s' r t := by
  constructor
  · rintro (h' | ⟨h', rest⟩)
    · rw [h] at h'
      cases h'
    · rw [h] at h'
      cases h'
      exact rest
  · exact .running h

/-- A step that ends an activity gives its result. -/
lemma halts_iff_of_ended {r' : α} {t' : σ} (h : step s = .ended r' t') :
    Halts step s r t ↔ r' = r ∧ t' = t := by
  constructor
  · rintro (h' | ⟨h', rest⟩)
    · rw [h] at h'
      cases h'
      exact ⟨rfl, rfl⟩
    · rw [h] at h'
      cases h'
  · rintro ⟨rfl, rfl⟩
    exact .ended h

/-- An activity ends in one way only. -/
lemma Halts.unique {r' : α} {t' : σ} (h : Halts step s r t) (h' : Halts step s r' t') :
    r = r' ∧ t = t' := by
  induction h with
  | ended h => exact (halts_iff_of_ended h).mp h'
  | running h _ ih => exact ih ((halts_iff_of_running h).mp h')

end Progress

namespace Machine

variable {m m' m₁ m₂ : Machine}

/-! ## The program -/

/-- The next instruction, looked up in the list of instructions. -/
lemma instruction?_eq (m : Machine) : m.instruction? = m.program.instructions.toList[m.pc]? := by
  rw [instruction?, Array.getElem?_toList]

/-- A jump from a `[` leads to a `]`. -/
lemma partner_of_loopOpen (hi : m.instruction? = some .loopOpen) :
    m.program.instructions[m.program.jumps.target m.pc]? = some .loopClose := by
  rw [instruction?_eq] at hi
  rw [← Array.getElem?_toList]
  exact JumpTable.getElem?_target_of_open m.program.resolved hi

/-- A jump from a `]` leads to a `[`. -/
lemma partner_of_loopClose (hi : m.instruction? = some .loopClose) :
    m.program.instructions[m.program.jumps.target m.pc]? = some .loopOpen := by
  rw [instruction?_eq] at hi
  rw [← Array.getElem?_toList]
  exact JumpTable.getElem?_target_of_close m.program.resolved hi

/-! ## What single steps can do -/

/-- A single step succeeds when there is an instruction and its execution succeeds. -/
lemma next_eq_ok_iff {step : Step} :
    m.next = (.ok step, m') ↔
      m.finished = false ∧ ∃ i, m.instruction? = some i ∧ m.execute i = (.ok (), m') ∧
        step = ⟨m.pc, i, m'.pc, m'.dp, m'.cell⟩ := by
  unfold next
  cases hf : m.finished with
  | true => simp
  | false =>
    cases hi : m.instruction? with
    | none => simp
    | some i =>
      rcases he : m.execute i with ⟨_ | _, m₁⟩
      · simp [he]
      · simp only [he, Prod.mk.injEq, Except.ok.injEq, true_and, Option.some.injEq,
          exists_eq_left']
        constructor
        · rintro ⟨rfl, rfl⟩
          exact ⟨rfl, rfl⟩
        · rintro ⟨rfl, rfl⟩
          exact ⟨rfl, rfl⟩

/-- A single step fails when the machine has finished, at the end of the program, or when the
execution of the instruction fails. -/
lemma next_eq_error_iff {fault : Fault} :
    m.next = (.error fault, m') ↔
      (m.finished = true ∨ m.instruction? = none) ∧ fault = .alreadyFinished ∧ m' = m ∨
      m.finished = false ∧ ∃ i, m.instruction? = some i ∧ m.execute i = (.error fault, m') := by
  unfold next
  cases hf : m.finished with
  | true => simp [eq_comm]
  | false =>
    cases hi : m.instruction? with
    | none => simp [eq_comm]
    | some i =>
      rcases he : m.execute i with ⟨_ | _, m₁⟩ <;> simp [he]

/-- A run goes on when there is an instruction and its execution succeeds. -/
lemma advance_eq_running_iff :
    m.advance = .running m' ↔ ∃ i, m.instruction? = some i ∧ m.execute i = (.ok (), m') := by
  unfold advance
  cases hi : m.instruction? with
  | none => simp
  | some i =>
    rcases he : m.execute i with ⟨_ | _, m₁⟩ <;> simp [he]

/-- A run ends behind the last instruction, or where the execution of an instruction fails. -/
lemma advance_eq_ended_iff {r : Except Fault Stats} :
    m.advance = .ended r m' ↔
      m.instruction? = none ∧ m.finish = (r, m') ∨
      ∃ i fault, m.instruction? = some i ∧ m.execute i = (.error fault, m') ∧
        r = .error fault := by
  unfold advance
  cases hi : m.instruction? with
  | none =>
    rcases hf : m.finish with ⟨r', m₁⟩
    simp
  | some i =>
    rcases he : m.execute i with ⟨_ | _, m₁⟩
    · simp [he, eq_comm, and_comm]
    · simp [he]

/-- As long as a machine has not finished, runs and single steps go on alike. -/
lemma advance_eq_running_iff_next (hf : m.finished = false) :
    m.advance = .running m' ↔ ∃ step, m.next = (.ok step, m') := by
  simp only [advance_eq_running_iff, next_eq_ok_iff, hf, true_and]
  constructor
  · rintro ⟨i, hi, he⟩
    exact ⟨_, i, hi, he, rfl⟩
  · rintro ⟨_, i, hi, he, -⟩
    exact ⟨i, hi, he⟩

/-! ## Execution at another place -/

/-- A machine in the same state at another place of another program. -/
def relocate (m : Machine) (program : Program) (pc executed : Nat) : Machine :=
  { m with program, pc, executed }

/-- The outcome of an instruction that is no bracket, as it is at another place: if the instruction
succeeds it is counted and the machine stands behind it, else the machine stands where it was. -/
def outcomeAt (program : Program) (pc executed : Nat) :
    Except Fault Unit × Machine → Except Fault Unit × Machine
  | (.error fault, m) => (.error fault, m.relocate program pc executed)
  | (.ok (), m) => (.ok (), m.relocate program (pc + 1) (executed + 1))

section

variable (m) (program : Program) (pc executed : Nat)

lemma moveTo_relocate (address : Int) :
    (m.relocate program pc executed).moveTo address =
      outcomeAt program pc executed (m.moveTo address) := by
  simp only [moveTo, relocate]
  cases m.tape.refusal? address <;> rfl

lemma updateCell_relocate (f : UInt8 → UInt8) :
    (m.relocate program pc executed).updateCell f =
      outcomeAt program pc executed (m.updateCell f) := by
  simp only [updateCell, relocate]
  cases m.tape.refusal? m.dp <;> rfl

lemma emit_relocate :
    (m.relocate program pc executed).emit = outcomeAt program pc executed m.emit := by
  simp only [emit, relocate, cell]
  rcases m.output.push (m.tape.read m.dp) with ⟨_ | _, output⟩ <;> rfl

lemma receive_relocate :
    (m.relocate program pc executed).receive = outcomeAt program pc executed m.receive :=
  updateCell_relocate { m with input := m.input.readByte.2 } program pc executed
    fun _ => m.input.readByte.1

variable {m}

/-- **Only brackets depend on where they stand**: the outcome of any other instruction is the same
at every place. -/
lemma execute_relocate {i : Instruction} (ho : i ≠ .loopOpen) (hc : i ≠ .loopClose) :
    (m.relocate program pc executed).execute i =
      outcomeAt program pc executed (m.execute i) := by
  cases i with
  | right | left => exact m.moveTo_relocate program pc executed _
  | incr n | decr n => exact m.updateCell_relocate program pc executed _
  | output => exact m.emit_relocate program pc executed
  | input => exact m.receive_relocate program pc executed
  | loopOpen => exact absurd rfl ho
  | loopClose => exact absurd rfl hc

end

/-- An instruction that is no bracket and succeeds is counted, and the machine stands behind it. -/
lemma place_of_ok {i : Instruction} (ho : i ≠ .loopOpen) (hc : i ≠ .loopClose)
    (h : m.execute i = (.ok (), m')) :
    m' = m'.relocate m.program (m.pc + 1) (m.executed + 1) := by
  have hplace := execute_relocate (m := m) m.program m.pc m.executed ho hc
  change m.execute i = _ at hplace
  rw [h] at hplace
  exact congrArg Prod.snd hplace

/-- A bracket does not fail. -/
lemma no_bracket_of_error {i : Instruction} {fault : Fault}
    (h : m.execute i = (.error fault, m')) : i ≠ .loopOpen ∧ i ≠ .loopClose := by
  constructor <;>
  · rintro rfl
    cases h

/-- Where an instruction fails the machine stays where it was. -/
lemma place_of_error {i : Instruction} {fault : Fault} (h : m.execute i = (.error fault, m')) :
    m' = m'.relocate m.program m.pc m.executed := by
  obtain ⟨ho, hc⟩ := no_bracket_of_error h
  have hplace := execute_relocate (m := m) m.program m.pc m.executed ho hc
  change m.execute i = _ at hplace
  rw [h] at hplace
  exact congrArg Prod.snd hplace

/-- An instruction that succeeds keeps the program and is counted. -/
lemma counted_of_ok {i : Instruction} (h : m.execute i = (.ok (), m')) :
    m'.program = m.program ∧ m'.executed = m.executed + 1 := by
  by_cases ho : i = .loopOpen
  · subst ho
    cases h
    exact ⟨rfl, rfl⟩
  · by_cases hc : i = .loopClose
    · subst hc
      cases h
      exact ⟨rfl, rfl⟩
    · rw [place_of_ok ho hc h]
      exact ⟨rfl, rfl⟩

/-- The execution of an instruction does not finish the machine. -/
lemma finished_execute (m : Machine) (i : Instruction) :
    (m.execute i).2.finished = m.finished := by
  cases i <;> simp only [execute, moveTo, updateCell, emit, receive, branch, advanceFrom] <;>
    split <;> rfl

/-- A single step keeps the program, does not finish the machine, and is counted. -/
lemma next_frame {step : Step} (h : m.next = (.ok step, m')) :
    m'.program = m.program ∧ m'.finished = m.finished ∧ m'.executed = m.executed + 1 := by
  obtain ⟨-, i, -, he, -⟩ := next_eq_ok_iff.mp h
  have hf := finished_execute m i
  rw [he] at hf
  exact ⟨(counted_of_ok he).1, hf, (counted_of_ok he).2⟩

/-! ## Walks -/

/-- Single steps that succeed, one after another, with the report of each. -/
inductive Walk : Machine → List Step → Machine → Prop
  | nil (m : Machine) : Walk m [] m
  | cons {m m₁ m' : Machine} {step : Step} {steps : List Step} (h : m.next = (.ok step, m₁))
    (rest : Walk m₁ steps m') : Walk m (step :: steps) m'

namespace Walk

variable {steps steps₁ steps₂ : List Step}

/-- One walk after another. -/
lemma append (h₁ : Walk m steps₁ m₁) (h₂ : Walk m₁ steps₂ m') :
    Walk m (steps₁ ++ steps₂) m' := by
  induction h₁ with
  | nil => exact h₂
  | cons h _ ih => exact .cons h (ih h₂)

/-- A single step is a walk. -/
lemma single {step : Step} (h : m.next = (.ok step, m')) : Walk m [step] m' :=
  .cons h (.nil m')

/-- A walk can be split behind any of its steps. -/
lemma exists_of_append (h : Walk m (steps₁ ++ steps₂) m') :
    ∃ m₁, Walk m steps₁ m₁ ∧ Walk m₁ steps₂ m' := by
  induction steps₁ generalizing m with
  | nil => exact ⟨m, .nil m, h⟩
  | cons step steps₁ ih =>
    cases h with
    | cons hnext rest =>
      obtain ⟨m₁, hw₁, hw₂⟩ := ih rest
      exact ⟨m₁, .cons hnext hw₁, hw₂⟩

/-- The last step of a walk is made behind the others, and its report is of the machine that the walk
leads to. -/
lemma exists_of_concat {step : Step} (h : Walk m (steps ++ [step]) m') :
    ∃ m₁, Walk m steps m₁ ∧ m₁.next = (.ok step, m') ∧ step.dp = m'.dp := by
  obtain ⟨m₁, hw, hlast⟩ := h.exists_of_append
  cases hlast with
  | cons hnext rest =>
    cases rest
    obtain ⟨-, i, -, -, rfl⟩ := next_eq_ok_iff.mp hnext
    exact ⟨m₁, hw, hnext, rfl⟩

/-- A walk keeps the program and does not finish the machine. -/
lemma frame (h : Walk m steps m') : m'.program = m.program ∧ m'.finished = m.finished := by
  induction h with
  | nil => exact ⟨rfl, rfl⟩
  | cons h _ ih =>
    obtain ⟨hp, hf, -⟩ := next_frame h
    exact ⟨ih.1.trans hp, ih.2.trans hf⟩

/-- A walk executes as many instructions as it has steps. -/
lemma executed (h : Walk m steps m') : m'.executed = m.executed + steps.length := by
  induction h with
  | nil => rfl
  | cons h _ ih =>
    rw [ih, (next_frame h).2.2, List.length_cons]
    omega

/-- **There is one path**: of two walks from one machine the longer continues the shorter. -/
lemma exists_append (h₁ : Walk m steps₁ m₁) (h₂ : Walk m steps₂ m₂)
    (hle : steps₁.length ≤ steps₂.length) :
    ∃ steps, steps₂ = steps₁ ++ steps ∧ Walk m₁ steps m₂ := by
  induction h₁ generalizing steps₂ with
  | nil => exact ⟨steps₂, rfl, h₂⟩
  | cons h _ ih =>
    cases h₂ with
    | nil => simp at hle
    | cons h' rest' =>
      rw [h] at h'
      cases h'
      obtain ⟨steps, rfl, hw⟩ := ih rest' (by simpa using hle)
      exact ⟨steps, rfl, hw⟩

/-- Walks of equal length from one machine are equal. -/
lemma unique (h₁ : Walk m steps₁ m₁) (h₂ : Walk m steps₂ m₂)
    (heq : steps₁.length = steps₂.length) : steps₁ = steps₂ ∧ m₁ = m₂ := by
  obtain ⟨steps, rfl, hw⟩ := h₁.exists_append h₂ heq.le
  obtain rfl : steps = [] := by simpa using heq
  cases hw
  exact ⟨(List.append_nil _).symm, rfl⟩

/-- No walk leads on from a machine at which a run ends. -/
lemma eq_nil_of_ended {r : Except Fault Stats} (h : Walk m steps m₁)
    (hend : m.advance = .ended r m') : steps = [] := by
  cases h with
  | nil => rfl
  | cons h rest =>
    obtain ⟨hf, -⟩ := next_eq_ok_iff.mp h
    rw [(advance_eq_running_iff_next hf).mpr ⟨_, h⟩] at hend
    cases hend

/-- The steps of a walk that cannot go on are those that can be made behind some walk. -/
lemma mem_iff_of_ended {r : Except Fault Stats} {report : Step} (h : Walk m steps m₁)
    (hend : m₁.advance = .ended r m') :
    report ∈ steps ↔ ∃ steps₁ m₂ m₃, Walk m steps₁ m₂ ∧ m₂.next = (.ok report, m₃) := by
  constructor
  · intro hmem
    induction h with
    | nil => cases hmem
    | @cons m₀ _ _ _ _ h _ ih =>
      rcases List.mem_cons.mp hmem with rfl | hmem
      · exact ⟨[], m₀, _, .nil m₀, h⟩
      · obtain ⟨steps₁, m₂, m₃, hw, hnext⟩ := ih hend hmem
        exact ⟨_ :: steps₁, m₂, m₃, .cons h hw, hnext⟩
  · rintro ⟨steps₁, m₂, m₃, hw, hnext⟩
    have hw₃ := hw.append (.single hnext)
    rcases Nat.le_total (steps₁ ++ [report]).length steps.length with hle | hle
    · obtain ⟨rest, rfl, -⟩ := hw₃.exists_append h hle
      simp
    · obtain ⟨rest, heq, hrest⟩ := h.exists_append hw₃ hle
      obtain rfl := hrest.eq_nil_of_ended hend
      rw [List.append_nil] at heq
      simp [← heq]

end Walk

/-! ## What walks write -/

/-- An instruction that is no output leaves the sink as it is. -/
lemma output_execute (m : Machine) {i : Instruction} (hi : i ≠ .output) :
    (m.execute i).2.output = m.output := by
  cases i with
  | output => exact absurd rfl hi
  | loopOpen | loopClose => rfl
  | _ =>
    simp only [execute, moveTo, updateCell, receive, advanceFrom]
    split <;> rfl

/-- An output writes the current cell, and no other instruction writes anything. -/
lemma pushed_of_execute {i : Instruction} (h : m.execute i = (.ok (), m')) :
    m'.output.pushed = m.output.pushed ++ if i = .output then [m'.cell] else [] := by
  by_cases hi : i = .output
  · subst hi
    rw [if_pos rfl]
    simp only [execute, emit] at h
    split at h
    · cases h
    · rename_i hpush
      cases h
      exact (OutputSink.pushed_of_push hpush).1
  · have houtput := output_execute m hi
    rw [h] at houtput
    rw [houtput, if_neg hi, List.append_nil]

/-- The bytes that the steps of a walk have written. -/
def emitted (steps : List Step) : List UInt8 :=
  steps.flatMap fun step => if step.instruction = .output then [step.cell] else []

/-- **A walk writes** the cells that its outputs find, behind what was written before. -/
theorem Walk.pushed {steps : List Step} (h : Walk m steps m') :
    m'.output.pushed = m.output.pushed ++ emitted steps := by
  induction h with
  | nil => exact (List.append_nil _).symm
  | cons h _ ih =>
    obtain ⟨-, i, -, he, rfl⟩ := next_eq_ok_iff.mp h
    rw [ih, pushed_of_execute he, List.append_assoc]
    rfl

/-! ## Runs -/

/-- The run of a machine ends with a result. -/
def RunsTo (m : Machine) (result : Except Fault Stats) (m' : Machine) : Prop :=
  ∃ fuel, m.run fuel = some (result, m')

/-- The run of a machine does not end. -/
def Diverges (m : Machine) : Prop := ∀ fuel, m.run fuel = none

variable {r : Except Fault Stats}

/-- The run of a machine that has not finished is the repetition of its steps. -/
lemma runsTo_iff_halts (hf : m.finished = false) :
    m.RunsTo r m' ↔ Progress.Halts advance m r m' := by
  unfold RunsTo run
  simp only [hf, Bool.false_eq_true, if_false, Progress.halts_iff_iterate]

/-- A walk leads to what a run reaches. -/
lemma Walk.reaches {steps : List Step} (h : Walk m steps m') (hf : m.finished = false) :
    Progress.Reaches advance m m' := by
  induction h with
  | nil m => exact .refl m
  | cons h _ ih =>
    exact .running ((advance_eq_running_iff_next hf).mpr ⟨_, h⟩)
      (ih ((Walk.single h).frame.2.trans hf))

/-- What a run reaches lies on a walk. -/
lemma exists_walk_of_reaches (hf : m.finished = false) (h : Progress.Reaches advance m m') :
    ∃ steps, Walk m steps m' := by
  induction h with
  | refl m => exact ⟨[], .nil m⟩
  | running h _ ih =>
    obtain ⟨step, hs⟩ := (advance_eq_running_iff_next hf).mp h
    obtain ⟨steps, hw⟩ := ih ((Walk.single hs).frame.2.trans hf)
    exact ⟨step :: steps, .cons hs hw⟩

/-- **A run is a walk** to a machine that cannot go on. -/
lemma runsTo_iff_walk (hf : m.finished = false) :
    m.RunsTo r m' ↔ ∃ steps m₁, Walk m steps m₁ ∧ m₁.advance = .ended r m' := by
  rw [runsTo_iff_halts hf, Progress.halts_iff_reaches]
  constructor
  · rintro ⟨m₁, hreach, hend⟩
    obtain ⟨steps, hw⟩ := exists_walk_of_reaches hf hreach
    exact ⟨steps, m₁, hw, hend⟩
  · rintro ⟨steps, m₁, hw, hend⟩
    exact ⟨m₁, hw.reaches hf, hend⟩

/-- A run has one result. -/
lemma RunsTo.unique {r' : Except Fault Stats} {m'' : Machine} (h : m.RunsTo r m')
    (h' : m.RunsTo r' m'') : r = r' ∧ m' = m'' := by
  cases hf : m.finished with
  | false => exact ((runsTo_iff_halts hf).mp h).unique ((runsTo_iff_halts hf).mp h')
  | true =>
    obtain ⟨fuel, h⟩ := h
    obtain ⟨fuel', h'⟩ := h'
    simp only [run, hf, if_true, Option.some.injEq, Prod.mk.injEq] at h h'
    exact ⟨h.1.symm.trans h'.1, h.2.symm.trans h'.2⟩

/-- A run that does not end has no result. -/
lemma diverges_iff_not_runsTo : m.Diverges ↔ ∀ r m', ¬ m.RunsTo r m' := by
  constructor
  · rintro h r m' ⟨fuel, hr⟩
    rw [h fuel] at hr
    cases hr
  · intro h fuel
    cases hr : m.run fuel with
    | none => rfl
    | some result => exact absurd ⟨fuel, hr⟩ (h result.1 result.2)

/-- No walk is longer than that of a run that ends. -/
lemma Walk.length_le_of_ended {steps steps' : List Step} (h : Walk m steps m₁)
    (hend : m₁.advance = .ended r m') (h' : Walk m steps' m₂) : steps'.length ≤ steps.length := by
  by_contra hlt
  obtain ⟨rest, rfl, hw⟩ := h.exists_append h' (by omega)
  obtain rfl := hw.eq_nil_of_ended hend
  simp at hlt

/-- A machine whose run does not end has walks of every length. -/
lemma exists_walk_or_runsTo (hf : m.finished = false) (n : Nat) :
    (∃ steps m₁, Walk m steps m₁ ∧ steps.length = n) ∨ ∃ r m', m.RunsTo r m' := by
  induction n with
  | zero => exact Or.inl ⟨[], m, .nil m, rfl⟩
  | succ n ih =>
    refine ih.elim (fun ⟨steps, m₁, hw, hlen⟩ => ?_) Or.inr
    have hf₁ : m₁.finished = false := hw.frame.2.trans hf
    cases ha : m₁.advance with
    | running m₂ =>
      obtain ⟨step, hs⟩ := (advance_eq_running_iff_next hf₁).mp ha
      exact Or.inl ⟨steps ++ [step], m₂, hw.append (.single hs), by simp [hlen]⟩
    | ended r m' => exact Or.inr ⟨r, m', (runsTo_iff_walk hf).mpr ⟨steps, m₁, hw, ha⟩⟩

end Machine

end TapeMachine

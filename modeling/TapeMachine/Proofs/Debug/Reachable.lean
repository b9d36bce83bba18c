import Mathlib.Tactic
import TapeMachine.Proofs.Debug.Calls
import TapeMachine.Proofs.Machine.Placement

/-!
# Reachable machines

What holds of every machine that was driven by calls from the start of a program, whatever they
returned: its tape stores what it takes to hold the cells that were visited, and the machine stands
on the tape, or at a move that it was refused.

## Main definitions

* `TapeMachine.Calls.Executes` — an instruction is executed in the course of some calls.
* `TapeMachine.Calls.visited` — the values of the data pointer in the course of some calls.
* `TapeMachine.Calls.Reached` — what holds of a machine that was driven by calls.

## Main results

* `TapeMachine.Call.Returns.travels`, `TapeMachine.Calls.travels` — what calls do to the place of a
  machine.
* `TapeMachine.Calls.reachable_machine_in_bounds` — what holds of every reachable machine.
-/

set_option autoImplicit false

namespace TapeMachine

open Machine

/-! ## Calls -/

/-- What concludes a call visits nothing, and makes the machine leave its tape only for want of
cells. -/
lemma Machine.Concludes.travels {m m' : Machine} {returned : Returned} (h : Concludes m returned m')
    (hm : m.Placed) :
    Travels m m' ∅ (∃ refusal, returned = .failed (.outOfCells refusal)) := by
  cases h with
  | step | lost | nothing => exact (Travels.of_eq hm rfl rfl rfl rfl).imp False.elim
  | fails _ hi he =>
    apply (travels_of_error hm hi he).imp
    rintro ⟨refusal, rfl⟩
    exact ⟨refusal, rfl⟩
  | flushFails _ _ hfinish | completed _ _ hfinish =>
    exact (travels_of_finish hm hfinish).imp False.elim
  | quit =>
    have htravels : Travels m { m with finished := true } ∅ False := .of_eq hm rfl rfl rfl rfl
    exact htravels.imp False.elim

/-- **A call visits** the cells that are current behind the instructions which it executes, and
makes the machine leave its tape only for want of cells. -/
theorem Call.Returns.travels {call : Call} {m m' : Machine} {returned : Returned}
    (h : call.Returns m returned m') (hm : m.Placed) :
    Travels m m' {a | ∃ report, call.Executes m report ∧ report.dp = a}
      (∃ refusal, returned = .failed (.outOfCells refusal)) := by
  obtain ⟨steps, m₁, hw, hc, hmem⟩ := h.exists_walk
  have hwalk := hw.travels hm
  have htravels := hwalk.trans (hc.travels hwalk.placed)
  simpa only [hmem, Set.union_empty, false_or] using htravels

/-- A machine to which a call has been refused cells is stuck. -/
lemma Call.Returns.stuck {call : Call} {m m' : Machine} {refusal : OutOfCells}
    (h : call.Returns m (.failed (.outOfCells refusal)) m') (hm : m.Placed) : m'.Stuck := by
  obtain ⟨steps, m₁, hw, hc, -⟩ := h.exists_walk
  have hm₁ := (hw.travels hm).placed
  cases hc with
  | fails _ hi he => exact stuck_of_outOfCells hm₁ hi he
  | flushFails _ _ hfinish =>
    unfold finish at hfinish
    split at hfinish <;> cases hfinish

namespace Calls

variable {m m' m₁ : Machine} {call : Call} {returned : Returned} {calls : List (Call × Returned)}
  {report : Step}

/-- In the course of calls on a machine an instruction is executed, with this report. -/
inductive Executes : Machine → List (Call × Returned) → Step → Prop
  | here {m : Machine} {call : Call} {returned : Returned} {calls : List (Call × Returned)}
    {report : Step} (h : call.Executes m report) : Executes m ((call, returned) :: calls) report
  | later {m m₁ : Machine} {call : Call} {returned : Returned} {calls : List (Call × Returned)}
    {report : Step} (h : call.Returns m returned m₁) (rest : Executes m₁ calls report) :
    Executes m ((call, returned) :: calls) report

/-- The values of the data pointer in the course of calls on a machine: the first one, and those
behind the instructions that are executed. -/
def visited (m : Machine) (calls : List (Call × Returned)) : Set Int :=
  insert m.dp {a | ∃ report, Executes m calls report ∧ report.dp = a}

/-- Without a call nothing is executed. -/
lemma not_executes_nil : ¬ Executes m [] report := by
  rintro ⟨⟩

/-- What is executed in the course of calls is executed by the first one, or later. -/
lemma executes_cons_iff (h : call.Returns m returned m₁) :
    Executes m ((call, returned) :: calls) report ↔
      call.Executes m report ∨ Executes m₁ calls report := by
  constructor
  · rintro (hfirst | ⟨h', rest⟩)
    · exact Or.inl hfirst
    · obtain ⟨-, rfl⟩ := h.unique h'
      exact Or.inr rest
  · rintro (hfirst | rest)
    · exact .here hfirst
    · exact .later h rest

/-- **Calls visit** the cells that are current behind the instructions which they execute, and make
the machine leave its tape only for want of cells.

**Proof sketch.** Induction on the calls. What is executed in the course of the first call and what
is executed later is known for each of the two, since the first call has one outcome only. -/
theorem travels (h : Calls m calls m') (hm : m.Placed) :
    Travels m m' {a | ∃ report, Executes m calls report ∧ report.dp = a}
      (∃ call refusal, (call, Returned.failed (.outOfCells refusal)) ∈ calls) := by
  induction h with
  | nil m => simpa [not_executes_nil] using Travels.of_eq hm rfl rfl rfl rfl
  | @cons m m₁ m' call returned calls h _ ih =>
    have hfirst := h.travels hm
    have hvisited : {a | ∃ report, Executes m ((call, returned) :: calls) report ∧ report.dp = a} =
        {a | ∃ report, call.Executes m report ∧ report.dp = a} ∪
          {a | ∃ report, Executes m₁ calls report ∧ report.dp = a} := by
      ext a
      simp only [executes_cons_iff h, or_and_right, exists_or, Set.mem_ofPred_eq, Set.mem_union]
    rw [hvisited]
    apply (hfirst.trans (ih hfirst.placed)).imp
    rintro (⟨refusal, rfl⟩ | ⟨call', refusal, hmem⟩)
    · exact ⟨call, refusal, List.mem_cons_self⟩
    · exact ⟨call', refusal, List.mem_cons_of_mem _ hmem⟩

/-! ## Machines that were driven from the start of a program -/

/-- What holds of a machine `m` that was driven by calls from the machine `start` at the start of a
program. -/
structure Reached (start : Machine) (calls : List (Call × Returned)) (m : Machine) : Prop where
  /-- The machine executes the program that it was started with. -/
  program : m.program = start.program
  /-- It stands in its program or at its end. -/
  pc_le : m.pc ≤ m.program.size
  /-- The least address that is stored is the least that was visited. -/
  least : IsLeast (visited start calls) m.tape.extent.1
  /-- The greatest address that is stored is the greatest that was visited. -/
  greatest : IsGreatest (visited start calls) m.tape.extent.2
  /-- The number of cells is the span of the two. -/
  cells : (m.stats.tapeCells : Int) = m.tape.extent.2 - m.tape.extent.1 + 1
  /-- It does not exceed the limit, unless the limit does not allow for the first cell. -/
  within : ∀ n, start.tape.limit = some n → m.stats.tapeCells ≤ max 1 n
  /-- It does not shrink, whatever calls follow. -/
  not_shrinking : ∀ calls' m', Calls m calls' m' → m.stats.tapeCells ≤ m'.stats.tapeCells
  /-- What is not stored reads as zero. -/
  outside : ∀ a, a < m.tape.extent.1 ∨ m.tape.extent.2 < a → m.tape.read a = 0
  /-- The data pointer stands on the tape, or a call has been refused cells and the machine stands
  at a move. -/
  pointer : (m.tape.extent.1 ≤ m.dp ∧ m.dp ≤ m.tape.extent.2) ∨
    (∃ call refusal, (call, Returned.failed (.outOfCells refusal)) ∈ calls) ∧
      (m.instruction? = some .right ∨ m.instruction? = some .left)
  /-- There is an instruction to execute everywhere but at the end. -/
  fetch : m.instruction? = none ↔ m.pc = m.program.size
  /-- A jump leads into the program. -/
  jump : m.instruction? = some .loopOpen ∨ m.instruction? = some .loopClose →
    m.program.jumps.target m.pc < m.program.size
  /-- An instruction that changes the current cell or reads input into it succeeds, and the tape
  does not grow by it. -/
  update : ∀ i, m.instruction? = some i → updates i = true →
    ∃ m', m.execute i = (.ok (), m') ∧ m'.tape.extent = m.tape.extent
  /-- If a call is refused cells the machine stands at a move. -/
  refused : ∀ (call : Call) (refusal : OutOfCells) (m' : Machine),
    call.Returns m (.failed (.outOfCells refusal)) m' →
    m'.instruction? = some .right ∨ m'.instruction? = some .left

/-- A machine at the start of a program stands in it and on its tape. -/
lemma placed_start (program : Program) (config : Config) (reader : Reader) (writer : Writer) :
    (Machine.start program config reader writer).Stored ∧
      (Machine.start program config reader writer).Placed := by
  have hs : (Machine.start program config reader writer).Stored := ⟨le_rfl, le_rfl⟩
  exact ⟨hs, Nat.zero_le _, Or.inl hs⟩

/-- **Every reachable machine stands in its program, and on its tape** unless it was refused cells.
The tape stores the stretch between the least and the greatest cell that was visited, within its
limit. What a machine passes through in the course of a call is reached by single steps as well. -/
theorem reachable_machine_in_bounds (program : Program) (config : Config) (reader : Reader)
    (writer : Writer) (calls : List (Call × Returned)) (m : Machine)
    (h : Calls (.start program config reader writer) calls m) :
    Reached (.start program config reader writer) calls m := by
  obtain ⟨hstored, hplaced⟩ := placed_start program config reader writer
  have ht := h.travels hplaced
  refine
    { program := ht.program
      pc_le := ht.placed.pc_le
      least := ht.grown.least
      greatest := ht.grown.greatest
      cells := m.tape.size_eq_span
      within := ht.grown.within
      not_shrinking := fun calls' m' h' => (h'.travels ht.placed).grown.size_le
      outside := fun a => Tape.read_of_outside
      fetch := instruction?_eq_none_iff ht.placed.pc_le
      jump := target_lt
      update := fun i => ht.placed.exists_execute
      refused := fun call refusal m' h' => (h'.stuck ht.placed).move
      pointer := ?_ }
  rcases ht.placed.pointer with hs | hs
  · exact Or.inl hs
  · exact Or.inr ⟨(ht.stored hstored).resolve_left hs.not_stored, hs.move⟩

/-- The program `>>` has two cells at most. The run stops at the second move, and the single step
that follows repeats this move. -/
theorem reachable_machine_in_bounds_of_refused :
    ∃ (program : Program) (calls : List (Call × Returned)) (m : Machine),
      program.instructions = #[.right, .right] ∧ m.dp = 3 ∧
        Calls (.start program { tapeLimit := some 2 } (.ofBytes []) {}) calls m ∧
        Reached (.start program { tapeLimit := some 2 } (.ofBytes []) {}) calls m := by
  have hcalls : Calls
      (.start ⟨#[.right, .right], ⟨#[0, 1]⟩, 0, rfl⟩ { tapeLimit := some 2 } (.ofBytes []) {})
      [(.run, .failed (.outOfCells ⟨2, 2⟩)), (.next, .failed (.outOfCells ⟨3, 2⟩))] _ :=
    .cons (.runFails ⟨2, rfl⟩) (.cons (.stepFails rfl) (.nil _))
  exact ⟨_, _, _, rfl, rfl, hcalls, reachable_machine_in_bounds _ _ _ _ _ _ hcalls⟩

end Calls

end TapeMachine

import Mathlib.Tactic
import TapeMachine.Machine.Basic
import TapeMachine.Proofs.Program.Reflection
import TapeMachine.Proofs.Tape.Access

/-!
# Left and right

The two directions of the tape are stored in different ways: the cell at the origin belongs to the
right half. This cannot be seen from outside. A program and its reflection run in lockstep: their
tapes hold the same cells at opposite addresses, and all else is the same.

## Main definitions

* `TapeMachine.Tape.Reflects`, `TapeMachine.Machine.Reflects` — a tape, and a machine, with left and
  right exchanged.
* `TapeMachine.ReflectedOutcome` — an outcome is that of the machine with left and right exchanged.
* `TapeMachine.Machine.InLockstep` — two machines cannot be told apart but for left and right.

## Main results

* `TapeMachine.Tape.Reflects.extend`, `TapeMachine.Tape.Reflects.modify`,
  `TapeMachine.Tape.Reflects.refusal?_eq` — the operations of the tape.
* `TapeMachine.Machine.Reflects.execute` — one instruction.
* `TapeMachine.left_and_right_are_reflections` — a text and its reflection, loaded and run.
-/

set_option autoImplicit false

namespace TapeMachine

/-! ## Tapes -/

namespace Tape

variable {t t' : Tape}

/-- A tape holds the cells of another one at the opposite addresses. -/
structure Reflects (t t' : Tape) : Prop where
  limit : t'.limit = t.limit
  extent : t'.extent = (-t.extent.2, -t.extent.1)
  read : ∀ a, t'.read (-a) = t.read a

namespace Reflects

/-- A fresh tape is its own reflection. -/
lemma blank (limit : Option Nat) : Reflects (Tape.blank limit) (Tape.blank limit) where
  limit := rfl
  extent := rfl
  read _ := by rw [read_blank, read_blank]

variable (h : Reflects t t') (a : Int)

include h

lemma size_eq : t'.size = t.size := by
  have hspan := t.size_eq_span
  have hspan' := t'.size_eq_span
  rw [h.extent] at hspan'
  omega

/-- As many cells have to be added to store the opposite address. -/
lemma shortfall_eq : t'.shortfall (-a) = t.shortfall a := by
  have hsize := h.size_eq
  have hspan := t.size_add_shortfall a
  have hspan' := t'.size_add_shortfall (-a)
  rw [h.extent] at hspan'
  omega

/-- **The limit** refuses the opposite address. -/
theorem refusal?_eq :
    t'.refusal? (-a) = (t.refusal? a).map fun refusal => ⟨-refusal.address, refusal.limit⟩ := by
  unfold refusal?
  rw [h.limit, h.size_eq, h.shortfall_eq]
  cases t.limit with
  | none => rfl
  | some limit =>
    dsimp only
    split <;> rfl

/-- **Growth** to the opposite address. -/
theorem extend : Reflects (t.extend a) (t'.extend (-a)) where
  limit := by rw [limit_extend, limit_extend, h.limit]
  extent := by
    rw [extent_extend, extent_extend, h.extent]
    dsimp only
    rw [min_neg_neg, max_neg_neg]
  read b := by rw [read_extend, read_extend, h.read]

variable {a} in
/-- **A change** of the stored cell at the opposite address. -/
theorem modify (hstored : t.shortfall a = 0) (f : UInt8 → UInt8) :
    Reflects (t.modify a f) (t'.modify (-a) f) where
  limit := by rw [limit_modify, limit_modify, h.limit]
  extent := by rw [extent_modify, extent_modify, h.extent]
  read b := by
    rw [read_modify f hstored, read_modify f (h.shortfall_eq a ▸ hstored), h.read, h.read]
    simp only [neg_inj]

/-- The stored cells in the opposite order. -/
theorem cells_eq : t'.cells = t.cells.reverse := by
  have hspan := t.size_eq_span
  refine List.ext_getElem (by simp [cells_eq_map, h.size_eq]) fun i hi _ => ?_
  have hi' : i < t.size := by simpa [cells_eq_map, h.size_eq] using hi
  simp only [cells_eq_map, List.getElem_reverse, List.getElem_map, List.getElem_range,
    List.length_map, List.length_range, h.extent]
  rw [← h.read]
  congr 1
  omega

end Reflects

end Tape

/-! ## Machines -/

/-- A fault with left and right exchanged. -/
def Fault.reflect : Fault → Fault
  | outOfCells refusal => outOfCells ⟨-refusal.address, refusal.limit⟩
  | fault => fault

/-- The report of an instruction with left and right exchanged. -/
def Step.reflect (step : Step) : Step :=
  { step with instruction := step.instruction.reflect, dp := -step.dp }

/-- A machine is another one with left and right exchanged. -/
structure Machine.Reflects (m m' : Machine) : Prop where
  program : m'.program = m.program.reflect
  pc : m'.pc = m.pc
  dp : m'.dp = -m.dp
  tape : m.tape.Reflects m'.tape
  input : m'.input = m.input
  output : m'.output = m.output
  executed : m'.executed = m.executed
  finished : m'.finished = m.finished

/-- An outcome is another one with left and right exchanged. What is returned is changed by `f`. -/
structure ReflectedOutcome {α : Type} (f : α → α) (o o' : Except Fault α × Machine) : Prop where
  result : o'.1 = (o.1.map f).mapError Fault.reflect
  machine : o.2.Reflects o'.2

namespace ReflectedOutcome

variable {α : Type} {f : α → α} {o' : Except Fault α × Machine} {m : Machine}

lemma exists_of_error {fault : Fault} (h : ReflectedOutcome f (.error fault, m) o') :
    ∃ m', o' = (.error fault.reflect, m') ∧ m.Reflects m' :=
  ⟨o'.2, Prod.ext h.result rfl, h.machine⟩

lemma exists_of_ok {a : α} (h : ReflectedOutcome f (.ok a, m) o') :
    ∃ m', o' = (.ok (f a), m') ∧ m.Reflects m' :=
  ⟨o'.2, Prod.ext h.result rfl, h.machine⟩

end ReflectedOutcome

namespace Machine

namespace Reflects

variable {m m' : Machine}

/-- A program and its reflection begin alike. -/
lemma start (program : Program) (config : Config) (reader : Reader) (writer : Writer) :
    Reflects (.start program config reader writer) (.start program.reflect config reader writer) :=
  ⟨rfl, rfl, rfl, .blank config.tapeLimit, rfl, rfl, rfl, rfl⟩

variable (h : Reflects m m')

include h

lemma cell_eq : m'.cell = m.cell := by
  rw [cell, h.dp, h.tape.read, cell]

lemma stats_eq : m'.stats = m.stats := by
  simp only [stats, h.executed, h.tape.size_eq, h.output, h.input]

lemma instruction?_eq : m'.instruction? = m.instruction?.map Instruction.reflect := by
  rw [instruction?, h.program, h.pc, Program.reflect, Array.getElem?_map, instruction?]

/-! ### Single instructions -/

lemma advanceFrom (position : Nat) :
    Reflects (m.advanceFrom position) (m'.advanceFrom position) :=
  { h with
    pc := rfl
    executed := congrArg (· + 1) h.executed }

/-- A move to an address, and to the opposite one. -/
lemma moveTo (address : Int) :
    ReflectedOutcome id (m.moveTo address) (m'.moveTo (-address)) := by
  simp only [Machine.moveTo, h.tape.refusal?_eq]
  cases m.tape.refusal? address with
  | some refusal => exact ⟨rfl, { h with dp := rfl }⟩
  | none =>
    have hmoved : Reflects { m with dp := address, tape := m.tape.extend address }
        { m' with dp := -address, tape := m'.tape.extend (-address) } :=
      { h with dp := rfl, tape := h.tape.extend address }
    exact ⟨rfl, h.pc ▸ hmoved.advanceFrom m.pc⟩

/-- A change of the current cell. -/
lemma updateCell (f : UInt8 → UInt8) : ReflectedOutcome id (m.updateCell f) (m'.updateCell f) := by
  simp only [Machine.updateCell, h.dp, h.tape.refusal?_eq]
  cases m.tape.refusal? m.dp with
  | some refusal => exact ⟨rfl, h⟩
  | none =>
    have hgrown := (h.tape.extend m.dp).modify (m.tape.shortfall_extend_self m.dp) f
    have hupdated : Reflects { m with tape := (m.tape.extend m.dp).modify m.dp f }
        { m' with dp := -m.dp, tape := (m'.tape.extend (-m.dp)).modify (-m.dp) f } :=
      { h with dp := rfl, tape := hgrown }
    refine ⟨rfl, ?_⟩
    have hadvanced := hupdated.advanceFrom m.pc
    rw [← h.dp] at hadvanced ⊢
    exact h.pc ▸ hadvanced

/-- A byte of output. -/
lemma emit : ReflectedOutcome id m.emit m'.emit := by
  simp only [Machine.emit, h.output, h.cell_eq]
  rcases m.output.push m.cell with ⟨cause | _, output⟩
  · exact ⟨rfl, { h with output := rfl }⟩
  · have hwritten : Reflects { m with output } { m' with output } := { h with output := rfl }
    exact ⟨rfl, h.pc ▸ hwritten.advanceFrom m.pc⟩

/-- A byte of input. -/
lemma receive : ReflectedOutcome id m.receive m'.receive := by
  have hread : Reflects { m with input := m.input.readByte.2 }
      { m' with input := m.input.readByte.2 } := { h with input := rfl }
  simp only [Machine.receive, h.input]
  exact hread.updateCell _

/-- A bracket. -/
lemma branch (jump : Bool) : ReflectedOutcome id (m.branch jump) (m'.branch jump) := by
  refine ⟨rfl, ?_⟩
  simp only [Machine.branch, h.program, h.pc]
  exact h.advanceFrom _

/-- **An instruction and its reflection** lead to the same with left and right exchanged. -/
theorem execute (i : Instruction) :
    ReflectedOutcome id (m.execute i) (m'.execute i.reflect) := by
  cases i with
  | right =>
    have hdp : m'.dp - 1 = -(m.dp + 1) := by
      rw [h.dp]
      omega
    show ReflectedOutcome id (m.moveTo (m.dp + 1)) (m'.moveTo (m'.dp - 1))
    rw [hdp]
    exact h.moveTo (m.dp + 1)
  | left =>
    have hdp : m'.dp + 1 = -(m.dp - 1) := by
      rw [h.dp]
      omega
    show ReflectedOutcome id (m.moveTo (m.dp - 1)) (m'.moveTo (m'.dp + 1))
    rw [hdp]
    exact h.moveTo (m.dp - 1)
  | incr n | decr n => exact h.updateCell _
  | output => exact h.emit
  | input => exact h.receive
  | loopOpen =>
    show ReflectedOutcome id (m.branch (m.cell == 0)) (m'.branch (m'.cell == 0))
    rw [h.cell_eq]
    exact h.branch _
  | loopClose =>
    show ReflectedOutcome id (m.branch (m.cell != 0)) (m'.branch (m'.cell != 0))
    rw [h.cell_eq]
    exact h.branch _

/-! ### Steps and runs -/

/-- **A single step** of the reflected program. -/
theorem next : ReflectedOutcome Step.reflect m.next m'.next := by
  unfold Machine.next
  rw [h.finished, h.instruction?_eq]
  cases m.finished with
  | true => exact ⟨rfl, h⟩
  | false =>
    cases m.instruction? with
    | none => exact ⟨rfl, h⟩
    | some i =>
      have houtcome := h.execute i
      rcases he : m.execute i with ⟨fault | _, m₁⟩ <;> rw [he] at houtcome
      · obtain ⟨m₁', he', hmachine⟩ := houtcome.exists_of_error
        simp only [Option.map_some, he, he']
        exact ⟨rfl, hmachine⟩
      · obtain ⟨m₁', he', hmachine⟩ := houtcome.exists_of_ok
        simp only [Option.map_some, he, he', id_eq]
        refine ⟨?_, hmachine⟩
        rw [h.pc, hmachine.pc, hmachine.dp, hmachine.cell_eq]
        rfl

/-- The end of a run. -/
lemma finish : ReflectedOutcome id m.finish m'.finish := by
  simp only [Machine.finish, h.output]
  rcases m.output.flush with ⟨cause | _, output⟩
  · exact ⟨rfl, { h with output := rfl }⟩
  · have hfinished : Reflects { m with output, finished := true }
        { m' with output, finished := true } := { h with output := rfl, finished := rfl }
    exact ⟨congrArg Except.ok hfinished.stats_eq, hfinished⟩

omit h in
/-- The steps of a run, as many as some fuel allows.

**Proof sketch.** Induction on the fuel; each step of the run is a single step or the end of the
run. -/
lemma iterate_advance (fuel : Nat) (h : Reflects m m') :
    Option.Rel (ReflectedOutcome id) (Progress.iterate Machine.advance fuel m)
      (Progress.iterate Machine.advance fuel m') := by
  induction fuel generalizing m m' with
  | zero => exact .none
  | succ fuel ih =>
    rw [Progress.iterate, Progress.iterate, Machine.advance, Machine.advance, h.instruction?_eq]
    cases m.instruction? with
    | none => exact .some h.finish
    | some i =>
      have houtcome := h.execute i
      rcases he : m.execute i with ⟨fault | _, m₁⟩ <;> rw [he] at houtcome
      · obtain ⟨m₁', he', hmachine⟩ := houtcome.exists_of_error
        simp only [Option.map_some, he, he']
        exact .some ⟨rfl, hmachine⟩
      · obtain ⟨m₁', he', hmachine⟩ := houtcome.exists_of_ok
        simp only [Option.map_some, he, he', id_eq]
        exact ih hmachine

/-- **A run** of the reflected program. -/
theorem run (fuel : Nat) : Option.Rel (ReflectedOutcome id) (m.run fuel) (m'.run fuel) := by
  unfold Machine.run
  rw [h.finished]
  cases m.finished with
  | true => exact .some ⟨rfl, h⟩
  | false => exact iterate_advance fuel h

end Reflects

/-- A machine after `n` single steps. Steps that fail count. -/
def afterSteps (n : Nat) (m : Machine) : Machine := (fun m => m.next.2)^[n] m

/-- Machines that are the same with left and right exchanged are so after each step. -/
theorem Reflects.afterSteps {m m' : Machine} (h : Reflects m m') (n : Nat) :
    Reflects (m.afterSteps n) (m'.afterSteps n) := by
  induction n generalizing m m' with
  | zero => exact h
  | succ n ih => exact ih h.next.machine

/-- Two machines cannot be told apart but for left and right: neither by their states nor by what
comes of the next step or of a run. -/
structure InLockstep (m m' : Machine) : Prop where
  /-- They stand at the same position, have executed as many instructions, have read the same input
  and have written the same output. Their data pointers and their tapes are opposite. -/
  reflects : Reflects m m'
  /-- The current cells are equal. -/
  cell : m'.cell = m.cell
  /-- The stored cells are in the opposite order. -/
  cells : m'.tape.cells = m.tape.cells.reverse
  /-- What they have done so far is equal. -/
  stats : m'.stats = m.stats
  /-- The next step leads to the same, with left and right exchanged. -/
  next : ReflectedOutcome Step.reflect m.next m'.next
  /-- It runs out of cells at opposite addresses. -/
  outOfCells : ∀ address limit, m.next.1 = .error (.outOfCells ⟨address, limit⟩) ↔
    m'.next.1 = .error (.outOfCells ⟨-address, limit⟩)
  /-- A run ends at the same step, and leads to the same with left and right exchanged. -/
  run : ∀ fuel, Option.Rel (ReflectedOutcome id) (m.run fuel) (m'.run fuel)

lemma Reflects.inLockstep {m m' : Machine} (h : Reflects m m') : InLockstep m m' where
  reflects := h
  cell := h.cell_eq
  cells := h.tape.cells_eq
  stats := h.stats_eq
  next := h.next
  outOfCells address limit := by
    rw [h.next.result]
    rcases m.next with ⟨⟨⟨a, l⟩⟩ | _ | _ | step, m₁⟩ <;>
      simp [Except.map, Except.mapError, Fault.reflect]
  run := h.run

end Machine

/-! ## Program texts -/

/-- **Left and right are reflections of each other.** A program text and the text with `<` and `>`
exchanged have the same error, or they load with the same jump table. The programs run in lockstep:
after every number of steps they cannot be told apart but for left and right. -/
theorem left_and_right_are_reflections (source : List UInt8) (fold : Bool) :
    (∀ e, Program.load (source.map reflectByte) fold = .error e ↔
      Program.load source fold = .error e) ∧
    ∀ p, Program.load source fold = .ok p →
      ∃ p', Program.load (source.map reflectByte) fold = .ok p' ∧ p'.jumps = p.jumps ∧
        p'.instructions = p.instructions.map Instruction.reflect ∧ p'.discarded = p.discarded ∧
        ∀ config reader writer n,
          Machine.InLockstep ((Machine.start p config reader writer).afterSteps n)
            ((Machine.start p' config reader writer).afterSteps n) := by
  rw [Program.load_map_reflectByte]
  constructor
  · intro e
    cases Program.load source fold <;> simp [Except.map]
  · intro p h
    refine ⟨p.reflect, by rw [h]; rfl, rfl, rfl, rfl, fun config reader writer n => ?_⟩
    exact ((Machine.Reflects.start p config reader writer).afterSteps n).inLockstep

end TapeMachine

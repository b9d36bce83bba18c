import Mathlib.Tactic
import TapeMachine.Proofs.Debug.Failing
import TapeMachine.Proofs.Debug.Independence

/-!
# Running out of cells is permanent

A move that is refused has moved the data pointer, and the machine keeps standing at this move. To
execute it once more leads still further away from the cells that are stored, so that it is refused
once more. Whatever calls are made from then on, none of them does anything else.

## Main definitions

* `TapeMachine.Instruction.stride` — how far an instruction moves the data pointer.
* `TapeMachine.Machine.drift` — a machine whose data pointer alone has moved.
* `TapeMachine.Machine.Exhausted` — a machine that stands at a move which is refused for good.

## Main results

* `TapeMachine.Machine.Exhausted.execute` — the move is refused once more.
* `TapeMachine.Call.returns_iff_of_exhausted` — one call on such a machine.
* `TapeMachine.Calls.iff_of_exhausted` — any calls on such a machine.
* `TapeMachine.Calls.exhaustion_is_permanent` — what follows when a call has been refused cells.
-/

set_option autoImplicit false

namespace TapeMachine

/-- How far an instruction moves the data pointer, and in which direction. -/
def Instruction.stride : Instruction → Int
  | .right => 1
  | .left => -1
  | _ => 0

namespace Machine

variable {m m' m₁ : Machine} {move : Instruction} {limit : Nat}

/-! ## Machines that stand at a refused move -/

/-- The same machine with its data pointer moved. -/
def drift (m : Machine) (distance : Int) : Machine := { m with dp := m.dp + distance }

/-- A machine that does not drift stays the same. -/
lemma drift_zero (m : Machine) : m.drift 0 = m := by
  simp only [drift, Int.add_zero]

/-- One drift after another. -/
lemma drift_drift (m : Machine) (a b : Int) : (m.drift a).drift b = m.drift (a + b) := by
  simp only [drift, Int.add_assoc]

/-- The machine has not finished, and stands at a move that its limit refuses: the data pointer has
left the stored cells in the direction of the move. -/
structure Exhausted (m : Machine) (move : Instruction) (limit : Nat) : Prop where
  /-- No call has finished the machine. -/
  running : m.finished = false
  /-- The move comes next. -/
  next : m.instruction? = some move
  /-- The tape has a limit. -/
  limit : m.tape.limit = some limit
  /-- The limit refuses the cell at which the machine stands. -/
  refused : m.tape.refusal? m.dp ≠ none
  /-- The move leads further away from the stored cells. -/
  beyond : move = .right ∧ m.tape.extent.2 < m.dp ∨ move = .left ∧ m.dp < m.tape.extent.1

namespace Exhausted

/-- A machine that is stuck and has not finished is exhausted. -/
lemma of_stuck (h : m.Stuck) (hf : m.finished = false) (hi : m.instruction? = some move)
    (hlimit : m.tape.limit = some limit) : m.Exhausted move limit where
  running := hf
  next := hi
  limit := hlimit
  refused := h.refused
  beyond := by
    refine h.beyond.imp (fun ⟨hright, hlt⟩ => ⟨?_, hlt⟩) fun ⟨hleft, hlt⟩ => ⟨?_, hlt⟩
    · exact Option.some.inj (hi.symm.trans hright)
    · exact Option.some.inj (hi.symm.trans hleft)

/-- The cell to which the move leads is refused as well, and so are all behind it. -/
lemma drift_stride (h : m.Exhausted move limit) : (m.drift move.stride).Exhausted move limit where
  running := h.running
  next := h.next
  limit := h.limit
  refused := by
    apply Tape.refusal?_of_beyond h.refused
    rcases h.beyond with ⟨rfl, hlt⟩ | ⟨rfl, hlt⟩
    · exact Or.inl ⟨hlt, Int.le_add_of_nonneg_right (by decide)⟩
    · refine Or.inr ⟨hlt, ?_⟩
      show m.dp + -1 ≤ m.dp
      omega
  beyond := by
    refine h.beyond.imp (fun ⟨hright, hlt⟩ => ⟨hright, ?_⟩) fun ⟨hleft, hlt⟩ => ⟨hleft, ?_⟩
    · subst hright
      show m.tape.extent.2 < m.dp + 1
      omega
    · subst hleft
      show m.dp + -1 < m.tape.extent.1
      omega

/-- **The move is refused once more**, and leads still further away. -/
theorem execute (h : m.Exhausted move limit) :
    m.execute move =
      (.error (.outOfCells ⟨m.dp + move.stride, limit⟩), m.drift move.stride) := by
  have hmove : m.execute move = m.moveTo (m.dp + move.stride) := by
    rcases h.beyond with ⟨rfl, -⟩ | ⟨rfl, -⟩
    · rfl
    · rfl
  obtain ⟨refusal, hrefusal⟩ := Option.ne_none_iff_exists'.mp h.drift_stride.refused
  obtain ⟨-, limit', hlimit, -, rfl⟩ := (Tape.refusal?_eq_some_iff _ _).mp hrefusal
  obtain rfl : limit = limit' := Option.some.inj (h.limit.symm.trans hlimit)
  have haddress : m.tape.refusal? (m.dp + move.stride) =
      some ⟨m.dp + move.stride, limit⟩ := hrefusal
  rw [hmove]
  simp only [moveTo, haddress, drift]

end Exhausted

end Machine

open Machine

variable {m m' : Machine} {move : Instruction} {limit : Nat}

/-! ## Calls -/

/-- A debug session ends with the move that is refused. Nothing is reported, and no line of the
operator is taken. -/
lemma Session.step_of_exhausted (h : m.Exhausted move limit) (d : Debugger) (wiring : Wiring) :
    (Session.start m d wiring).step =
      .ended (.error (.outOfCells ⟨m.dp + move.stride, limit⟩))
        (.start (m.drift move.stride) d wiring) := by
  have hend : m.advance = .ended (.error _) (m.drift move.stride) :=
    advance_eq_ended_iff.mpr (Or.inr ⟨move, _, h.next, h.execute, rfl⟩)
  rw [step_of_executing (s := .start m d wiring) h.running rfl]
  exact advance_of_ended (s := .start m d wiring) h.running hend true

/-- **A call on a machine that stands at a refused move** is refused the cell behind, and does
nothing but move the data pointer there. -/
theorem Call.returns_iff_of_exhausted (h : m.Exhausted move limit) {call : Call}
    {returned : Returned} :
    call.Returns m returned m' ↔
      returned = .failed (.outOfCells ⟨m.dp + move.stride, limit⟩) ∧
        m' = m.drift move.stride := by
  have hreturns : call.Returns m (.failed (.outOfCells ⟨m.dp + move.stride, limit⟩))
      (m.drift move.stride) := by
    cases call with
    | next =>
      exact .stepFails (next_eq_error_iff.mpr (Or.inr ⟨h.running, move, h.next, h.execute⟩))
    | run =>
      refine .runFails ((runsTo_iff_halts h.running).mpr (.ended ?_))
      exact advance_eq_ended_iff.mpr (Or.inr ⟨move, _, h.next, h.execute, rfl⟩)
    | debug d => exact .debug (.refl _) (Session.step_of_exhausted h d .separate)
  constructor
  · exact fun h' => h'.unique hreturns
  · rintro ⟨rfl, rfl⟩
    exact hreturns

namespace Calls

/-- **Calls on a machine that stands at a refused move** are all refused cells, each one cell further
away than the one before, and do nothing but move the data pointer.

**Proof sketch.** Induction on the calls. The first of them leaves a machine that stands at the same
move, one cell further away. -/
theorem iff_of_exhausted (h : m.Exhausted move limit) {later : List (Call × Returned)} :
    Calls m later m' ↔
      (∀ (k : Nat) (c : Call × Returned), later[k]? = some c →
        c.2 = .failed (.outOfCells ⟨m.dp + move.stride * (k + 1), limit⟩)) ∧
      m' = m.drift (move.stride * later.length) := by
  induction later generalizing m with
  | nil =>
    simp only [List.length_nil, Nat.cast_zero, Int.mul_zero, drift_zero, List.getElem?_nil,
      reduceCtorEq, false_imp_iff, implies_true, true_and]
    constructor
    · rintro ⟨⟩
      rfl
    · rintro rfl
      exact .nil _
  | cons c later ih =>
    obtain ⟨call, returned⟩ := c
    have hcons : Calls m ((call, returned) :: later) m' ↔
        returned = .failed (.outOfCells ⟨m.dp + move.stride, limit⟩) ∧
          Calls (m.drift move.stride) later m' := by
      constructor
      · rintro (_ | ⟨hfirst, hrest⟩)
        obtain ⟨hreturned, rfl⟩ := (Call.returns_iff_of_exhausted h).mp hfirst
        exact ⟨hreturned, hrest⟩
      · rintro ⟨hreturned, hrest⟩
        exact .cons ((Call.returns_iff_of_exhausted h).mpr ⟨hreturned, rfl⟩) hrest
    have hshift : ∀ n : Int, move.stride + move.stride * n = move.stride * (n + 1) := by
      intro n
      ring
    have hindex : ∀ k : Nat, (m.drift move.stride).dp + move.stride * (k + 1) =
        m.dp + move.stride * ((k + 1 : Nat) + 1) := by
      intro k
      show m.dp + move.stride + _ = _
      push_cast
      ring
    rw [hcons, ih h.drift_stride, drift_drift, hshift, List.length_cons, Nat.cast_add,
      Nat.cast_one, ← and_assoc]
    refine and_congr_left fun _ => ?_
    constructor
    · rintro ⟨hreturned, hlater⟩ k c hc
      cases k with
      | zero =>
        obtain rfl : (call, returned) = c := by simpa using hc
        simpa using hreturned
      | succ k =>
        rw [← hindex]
        exact hlater k c (by simpa using hc)
    · intro hall
      refine ⟨by simpa using hall 0 _ rfl, fun k c hc => ?_⟩
      rw [hindex]
      exact hall (k + 1) c (by simpa using hc)

/-- Whatever calls are made on a machine that stands at a refused move, it keeps standing there.

**Proof sketch.** Induction on the calls, as above. -/
lemma exhausted_of_calls (h : m.Exhausted move limit) {later : List (Call × Returned)}
    (hlater : Calls m later m') : m'.Exhausted move limit := by
  induction hlater with
  | nil => exact h
  | cons hcall _ ih =>
    obtain ⟨-, rfl⟩ := (Call.returns_iff_of_exhausted h).mp hcall
    exact ih h.drift_stride

/-- A machine to which a call has been refused cells stands at the move that was refused, with the
data pointer at the address that was refused. -/
lemma exists_exhausted {m₀ : Machine} (hm : m₀.Placed) {call : Call} {refusal : OutOfCells}
    (hcall : call.Returns m₀ (.failed (.outOfCells refusal)) m) :
    ∃ move, m.Exhausted move refusal.limit ∧ m.dp = refusal.address := by
  obtain ⟨steps, m₁, hw, hc, -⟩ := hcall.exists_walk
  obtain ⟨move, hi, he⟩ := hc.exists_refused
  have hf : m₁.finished = false := by
    cases hc with
    | fails hf | flushFails hf => exact hf
  obtain ⟨hkept, hfailure⟩ := (hw.travels hm).placed.failure hi he
  have hnext : m.instruction? = some move := by
    rw [instruction?, hkept.program, hkept.pc]
    exact hi
  have hrunning : m.finished = false := hkept.finished.trans hf
  have hrefused : ∀ address, MoveRefused m₁ address (.outOfCells refusal) m →
      m.tape.limit = some refusal.limit ∧ m.dp = refusal.address := by
    rintro address ⟨⟨limit, hlimit, hfault⟩, hdp, -⟩
    cases hfault
    exact ⟨hkept.tape ▸ hlimit, hdp⟩
  have hstuck := hcall.stuck hm
  rcases hfailure with ⟨-, hmove⟩ | ⟨-, hmove⟩ | ⟨-, houtput⟩
  · obtain ⟨hlimit, hdp⟩ := hrefused _ hmove
    exact ⟨move, .of_stuck hstuck hrunning hnext hlimit, hdp⟩
  · obtain ⟨hlimit, hdp⟩ := hrefused _ hmove
    exact ⟨move, .of_stuck hstuck hrunning hnext hlimit, hdp⟩
  · -- an output fails because of its writer
    rcases houtput.pending with ⟨cause, hio, -⟩ | ⟨cause, w, hio, -⟩ <;> cases hio

/-- **Running out of cells is permanent.** Whatever calls were made from the start of a program: if
one of them has been refused cells then the machine stands at a move to the right, or to the left,
and the data pointer at the address that was refused. All calls that follow, and as many as there
are, are refused cells, the next in the direction of the move each time. They leave the machine as
it is but for its data pointer, and a debug session reports nothing and asks for nothing. -/
theorem exhaustion_is_permanent {program : Program} {config : Config} {reader : Reader}
    {writer : Writer} {calls : List (Call × Returned)} {m₀ m : Machine} {call : Call}
    {refusal : OutOfCells} (h : Calls (.start program config reader writer) calls m₀)
    (hcall : call.Returns m₀ (.failed (.outOfCells refusal)) m) :
    ∃ stride : Int,
      (m.instruction? = some .right ∧ stride = 1 ∨ m.instruction? = some .left ∧ stride = -1) ∧
      m.dp = refusal.address ∧ m.finished = false ∧
      (∀ later m', Calls m later m' ↔
        (∀ (k : Nat) (c : Call × Returned), later[k]? = some c →
          c.2 = .failed (.outOfCells ⟨refusal.address + stride * (k + 1), refusal.limit⟩)) ∧
        m' = { m with dp := refusal.address + stride * later.length }) ∧
      ∀ later m', Calls m later m' → ∀ d wiring,
        (Session.start m' d wiring).RunsTo
          (.error (.outOfCells ⟨m'.dp + stride, refusal.limit⟩))
          (.start { m' with dp := m'.dp + stride } d wiring) := by
  obtain ⟨-, hplaced⟩ := placed_start program config reader writer
  obtain ⟨move, he, haddress⟩ := exists_exhausted (h.travels hplaced).placed hcall
  refine ⟨move.stride, ?_, haddress, he.running, ?_, ?_⟩
  · rcases he.beyond with ⟨rfl, -⟩ | ⟨rfl, -⟩
    · exact Or.inl ⟨he.next, rfl⟩
    · exact Or.inr ⟨he.next, rfl⟩
  · intro later m'
    rw [← haddress]
    exact iff_of_exhausted he
  · intro later m' hlater d wiring
    have he' := exhausted_of_calls he hlater
    exact Session.runsTo_iff_halts.mpr (.ended (Session.step_of_exhausted he' d wiring))

/-- The program `.<` has one cell. The run stops at its move, with the byte that was written still
pending. A single step, a debug session and another run are refused cells, and leave it pending. -/
theorem exhaustion_is_permanent_of_one_cell :
    ∃ (program : Program) (calls later : List (Call × Returned)) (m₀ m m' : Machine),
      program.instructions = #[.output, .left] ∧
      Calls (.start program { tapeLimit := some 1 } (.ofBytes []) {}) calls m₀ ∧
      Call.run.Returns m₀ (.failed (.outOfCells ⟨-1, 1⟩)) m ∧
      later.map Prod.snd = [.failed (.outOfCells ⟨-2, 1⟩), .failed (.outOfCells ⟨-3, 1⟩),
        .failed (.outOfCells ⟨-4, 1⟩)] ∧
      Calls m later m' ∧ m'.dp = -4 ∧ m'.output.pending = #[0] ∧ m'.finished = false := by
  let start : Machine :=
    .start ⟨#[.output, .left], ⟨#[0, 1]⟩, 0, rfl⟩ { tapeLimit := some 1 } (.ofBytes []) {}
  have hcalls : Calls start [(.next, .step ⟨0, .output, 1, 0, 0⟩)] start.next.2 :=
    .cons (.step rfl) (.nil _)
  have hrun : Call.run.Returns start.next.2 (.failed (.outOfCells ⟨-1, 1⟩)) start.next.2.next.2 :=
    .runFails ⟨1, rfl⟩
  obtain ⟨stride, hmove, -, -, hlater, -⟩ := exhaustion_is_permanent hcalls hrun
  have hstride : stride = -1 := by
    rcases hmove with ⟨hright, -⟩ | ⟨-, hstride⟩
    · cases hright
    · exact hstride
  subst hstride
  refine ⟨_, _, [(.next, .failed (.outOfCells ⟨-2, 1⟩)),
    (.debug ⟨.ofBytes [], {}, 2⟩, .failed (.outOfCells ⟨-3, 1⟩)),
    (.run, .failed (.outOfCells ⟨-4, 1⟩))], _, _, _, rfl, hcalls, hrun, rfl,
    (hlater _ _).mpr ⟨?_, rfl⟩, rfl, rfl, rfl⟩
  intro k c hc
  match k, hc with
  | 0, hc | 1, hc | 2, hc =>
    cases hc
    rfl

end Calls

end TapeMachine

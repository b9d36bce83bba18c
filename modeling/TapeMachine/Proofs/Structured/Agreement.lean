import Mathlib.Tactic
import TapeMachine.Proofs.Machine.Folding
import TapeMachine.Proofs.Stream.Delivery
import TapeMachine.Proofs.Structured.Block

/-!
# The machine in step with an evaluation

A machine that executes the instructions of a nested program goes the way of the evaluation of this
program, over any writer that never fails.

## Main definitions

* `TapeMachine.Structured.Agrees` — a machine is in the state of an evaluation.
* `TapeMachine.Structured.Tracks` — a machine goes where an evaluation leads.

## Main results

* `TapeMachine.Structured.Agrees.perform` — the machine performs basic instructions.
* `TapeMachine.Structured.tracks_whileNonzero` — the machine repeats a loop body.
* `TapeMachine.Structured.Block.tracks_eval` — the machine goes where the evaluation of a nested
  program leads.
-/

set_option autoImplicit false

namespace TapeMachine

namespace Structured

open Machine

variable {limit : Option Nat} {prior : List UInt8} {s s' : State} {m m' : Machine}

/-! ## Machines in the state of an evaluation -/

/-- A machine that has not finished is in the state of an evaluation. When the evaluation began the
writer had accepted the bytes `prior`. -/
structure Agrees (limit : Option Nat) (prior : List UInt8) (s : State) (m : Machine) : Prop where
  running : m.finished = false
  dp : m.dp = s.dp
  cells : ∀ a, m.tape.read a = s.cells a
  extent : m.tape.extent = (s.least, s.greatest)
  bound : m.tape.limit = limit
  input : m.input = s.input
  output : m.output.pushed = prior ++ s.output
  reliable : m.output.writer.Reliable
  executed : m.executed = s.basics + s.entries + s.iterations
  -- what an evaluation keeps true of itself; a limit of zero still leaves one cell
  visited : s.least ≤ s.dp ∧ s.dp ≤ s.greatest
  within : ∀ n : Nat, limit = some n → s.greatest - s.least + 1 ≤ max 1 (n : Int)

/-- The execution of an instruction leads where an evaluation leads. -/
def Follows (limit : Option Nat) (prior : List UInt8) (outcome : Outcome)
    (execution : Except Fault Unit × Machine) : Prop :=
  match outcome with
  | .ended s => execution.1 = .ok () ∧ Agrees limit prior s execution.2
  | .refused refusal => execution.1 = .error (.outOfCells refusal)
  | .exhausted => False

namespace Agrees

/-- The current cell is the same. -/
lemma cell (h : Agrees limit prior s m) : m.cell = s.cell := by
  rw [Machine.cell, h.cells, h.dp]
  rfl

/-- The current cell is stored. -/
lemma shortfall (h : Agrees limit prior s m) : m.tape.shortfall m.dp = 0 := by
  rw [Tape.shortfall_eq_zero_iff, h.extent, h.dp]
  exact h.visited

/-- One basic instruction more counts one more. -/
lemma executed_succ (h : Agrees limit prior s m) :
    m.executed + 1 = s.basics + 1 + s.entries + s.iterations := by
  rw [h.executed]
  omega

/-- A machine that has moved is in the state of an evaluation that has moved. -/
lemma moved (h : Agrees limit prior s m) {address : Int}
    (hspan : ∀ n : Nat, limit = some n →
      max s.greatest address - min s.least address + 1 ≤ (n : Int)) :
    Agrees limit prior { s with
      dp := address
      least := min s.least address
      greatest := max s.greatest address
      basics := s.basics + 1 }
      ({ m with dp := address, tape := m.tape.extend address }.advanceFrom m.pc) where
  running := h.running
  dp := rfl
  cells a := (Tape.read_extend _ _ _).trans (h.cells a)
  extent := by
    have hextent := Tape.extent_extend m.tape address
    rw [h.extent] at hextent
    exact hextent
  bound := (Tape.limit_extend _ _).trans h.bound
  input := h.input
  output := h.output
  reliable := h.reliable
  executed := h.executed_succ
  visited := ⟨min_le_right _ _, le_max_right _ _⟩
  within n hn := (hspan n hn).trans (le_max_right _ _)

/-- The machine moves where the evaluation does, and is refused where the evaluation is.

**Proof sketch.** The two could differ only at an address that is stored although the cells
visited are more than the limit. But then the current cell is the only one that is stored, and a
move leads away from it. -/
lemma visit (h : Agrees limit prior s m) {address : Int} (hne : address ≠ s.dp) :
    Follows limit prior (s.visit limit address) (m.moveTo address) := by
  unfold moveTo State.visit
  cases limit with
  | none =>
    rw [Tape.refusal?_of_limit_eq_none _ _ h.bound]
    exact ⟨rfl, h.moved fun n hn => by cases hn⟩
  | some n =>
    have hrefusal := fun e => Tape.refusal?_eq_some_iff (t := m.tape) (a := address) (e := e)
    simp only [h.bound, h.extent, Option.some.injEq, exists_eq_left'] at hrefusal
    by_cases hlt : (n : Int) < max s.greatest address - min s.least address + 1
    · have hsome : m.tape.refusal? address = some ⟨address, n⟩ := by
        refine (hrefusal _).mpr ⟨fun hin => hne ?_, hlt, rfl⟩
        have hwithin := h.within n rfl
        have hvisited := h.visited
        omega
      rw [hsome]
      simp only [if_pos hlt]
      rfl
    · have hnone : m.tape.refusal? address = none :=
        Option.eq_none_iff_forall_ne_some.mpr fun refusal hsome =>
          hlt ((hrefusal refusal).mp hsome).2.1
      rw [hnone]
      simp only [if_neg hlt]
      refine ⟨rfl, h.moved fun k hk => ?_⟩
      cases hk
      exact Int.not_lt.mp hlt

/-- The machine changes the current cell as the evaluation does. -/
lemma update (h : Agrees limit prior s m) (f : UInt8 → UInt8) :
    Follows limit prior (.ended (s.set (f s.cell))) (m.updateCell f) := by
  have hstored := h.shortfall
  rw [updateCell_of_refusal?_eq_none (Tape.refusal?_of_shortfall _ _ hstored),
    Tape.extend_of_shortfall _ _ hstored]
  refine ⟨rfl, { h with cells := fun a => ?_, extent := ?_, bound := ?_, executed := ?_ }⟩
  · change (m.tape.modify m.dp f).read a = Function.update s.cells s.dp (f s.cell) a
    rw [Tape.read_modify f hstored, Function.update_apply, h.cells, h.cells, h.dp]
    rfl
  · exact (Tape.extent_modify _ _ f).trans h.extent
  · exact (Tape.limit_modify _ _ f).trans h.bound
  · exact h.executed_succ

/-- The machine writes the current cell as the evaluation does. -/
lemma emit (h : Agrees limit prior s m) :
    Follows limit prior
      (.ended { s with output := s.output ++ [s.cell], basics := s.basics + 1 }) m.emit := by
  obtain ⟨output, hpush, hreliable⟩ := OutputSink.exists_push h.reliable m.cell
  simp only [Machine.emit, hpush]
  refine ⟨rfl, { h with output := ?_, reliable := hreliable, executed := ?_ }⟩
  · change output.pushed = prior ++ (s.output ++ [s.cell])
    rw [(OutputSink.pushed_of_push hpush).1, h.output, h.cell, List.append_assoc]
  · exact h.executed_succ

/-- The machine reads a byte as the evaluation does. -/
lemma receive (h : Agrees limit prior s m) :
    Follows limit prior (.ended ({ s with input := s.input.readByte.2 }.set s.input.readByte.1))
      m.receive := by
  have hread : Agrees limit prior { s with input := s.input.readByte.2 }
      { m with input := m.input.readByte.2 } :=
    { h with input := by rw [h.input] }
  have hupdate := hread.update fun _ => s.input.readByte.1
  rw [← h.input] at hupdate ⊢
  exact hupdate

/-- **The machine performs basic instructions** as the evaluation does. -/
theorem perform (h : Agrees limit prior s m) (instruction : Basic) :
    Follows limit prior (s.perform limit instruction)
      (m.execute (.ofSymbol instruction.symbol)) := by
  cases instruction with
  | right =>
    change Follows limit prior (s.visit limit (s.dp + 1)) (m.moveTo (m.dp + 1))
    rw [h.dp]
    exact h.visit (by omega)
  | left =>
    change Follows limit prior (s.visit limit (s.dp - 1)) (m.moveTo (m.dp - 1))
    rw [h.dp]
    exact h.visit (by omega)
  | incr => exact h.update (· + 1)
  | decr => exact h.update (· - 1)
  | output => exact h.emit
  | input => exact h.receive

/-- A bracket that was executed changes nothing but the place of the machine and its count. -/
lemma advanceFrom (h : Agrees limit prior s m) (position entries iterations : Nat)
    (hcount : entries + iterations = s.entries + s.iterations + 1) :
    Agrees limit prior { s with entries, iterations } (m.advanceFrom position) := by
  refine { h with executed := ?_ }
  change m.executed + 1 = s.basics + entries + iterations
  rw [h.executed]
  omega

end Agrees

/-- **Both brackets of a loop test the current cell**: if it is zero the machine goes on behind the
loop, else at the beginning of the loop body. -/
lemma next_bracket (h : Agrees limit prior s m) {o c : Nat} {i : Instruction}
    (he : Encloses m.program.instructions.toList o c) (hi : m.instruction? = some i)
    (hb : m.pc = o ∧ i = .loopOpen ∨ m.pc = c ∧ i = .loopClose) :
    ∃ step position, m.next = (.ok step, m.advanceFrom position) ∧
      position + 1 = if s.cell = 0 then c + 1 else o + 1 := by
  obtain ⟨ho, hc⟩ := JumpTable.target_of_encloses m.program.resolved he
  have hcell := h.cell
  rcases hb with ⟨hpc, rfl⟩ | ⟨hpc, rfl⟩
  · refine ⟨_, _, next_eq_ok_iff.mpr ⟨h.running, _, hi, rfl, rfl⟩, ?_⟩
    rw [hpc, ho, hcell]
    by_cases hz : s.cell = 0 <;> simp [hz]
  · refine ⟨_, _, next_eq_ok_iff.mpr ⟨h.running, _, hi, rfl, rfl⟩, ?_⟩
    rw [hpc, hc, hcell]
    by_cases hz : s.cell = 0 <;> simp [hz]

/-! ## Machines that go where an evaluation leads -/

/-- A machine goes where an evaluation leads: if the evaluation ends the machine walks to the
position `goal`, if the evaluation ends with a move that is refused so does the machine, and if the
fuel does not suffice the machine can take `bound` steps. -/
def Tracks (limit : Option Nat) (prior : List UInt8) (bound : Nat) (m : Machine) (goal : Nat)
    (outcome : Outcome) : Prop :=
  match outcome with
  | .ended s => ∃ steps m', Walk m steps m' ∧ m'.pc = goal ∧ Agrees limit prior s m'
  | .refused refusal =>
    ∃ steps m₁ m', Walk m steps m₁ ∧ m₁.advance = .ended (.error (.outOfCells refusal)) m'
  | .exhausted => ∃ steps m', Walk m steps m' ∧ bound ≤ steps.length

namespace Tracks

variable {bound bound' goal goal' : Nat} {outcome : Outcome} {next : State → Outcome}

/-- A machine goes where an evaluation leads if it walks to one that does. -/
lemma prepend {steps : List Step} (hw : Walk m steps m')
    (h : Tracks limit prior bound' m' goal outcome) (hle : bound ≤ steps.length + bound') :
    Tracks limit prior bound m goal outcome := by
  cases outcome with
  | ended s =>
    obtain ⟨steps', m₁, hw', hend⟩ := h
    exact ⟨steps ++ steps', m₁, hw.append hw', hend⟩
  | refused refusal =>
    obtain ⟨steps', m₁, m₂, hw', hend⟩ := h
    exact ⟨steps ++ steps', m₁, m₂, hw.append hw', hend⟩
  | exhausted =>
    obtain ⟨steps', m₁, hw', hlen⟩ := h
    refine ⟨steps ++ steps', m₁, hw.append hw', ?_⟩
    rw [List.length_append]
    omega

/-- A machine goes where one evaluation after another leads. -/
lemma andThen (h : Tracks limit prior bound m goal outcome)
    (hnext : ∀ {s steps m'}, Walk m steps m' → m'.pc = goal → Agrees limit prior s m' →
      Tracks limit prior bound m' goal' (next s)) :
    Tracks limit prior bound m goal' (outcome.andThen next) := by
  cases outcome with
  | ended s =>
    obtain ⟨steps, m', hw, hpc, ha⟩ := h
    exact prepend hw (hnext hw hpc ha) (by omega)
  | refused refusal => exact h
  | exhausted => exact h

end Tracks

/-- The machine goes where a basic instruction leads. -/
lemma tracks_perform (h : Agrees limit prior s m) {instruction : Basic}
    (hi : m.instruction? = some (.ofSymbol instruction.symbol)) (bound : Nat) :
    Tracks limit prior bound m (m.pc + 1) (s.perform limit instruction) := by
  have hperform := h.perform instruction
  rcases he : m.execute (.ofSymbol instruction.symbol) with ⟨result, m'⟩
  rw [he] at hperform
  cases hs : s.perform limit instruction with
  | ended s' =>
    rw [hs] at hperform
    obtain ⟨rfl, ha⟩ := hperform
    have hplace := place_of_ok (by cases instruction <;> simp [Basic.symbol, Instruction.ofSymbol])
      (by cases instruction <;> simp [Basic.symbol, Instruction.ofSymbol]) he
    refine ⟨_, m', Walk.single (next_eq_ok_iff.mpr ⟨h.running, _, hi, he, rfl⟩), ?_, ha⟩
    rw [hplace]
    rfl
  | refused refusal =>
    rw [hs] at hperform
    obtain rfl : result = .error (.outOfCells refusal) := hperform
    exact ⟨[], m, m', .nil m, advance_eq_ended_iff.mpr (Or.inr ⟨_, _, hi, he, rfl⟩)⟩
  | exhausted =>
    rw [hs] at hperform
    exact hperform.elim

/-- **The machine repeats a loop body** as the evaluation does.

**Proof sketch.** Induction on the fuel. The invariant is that a machine at which the loop is tested
has already gone on from the bracket that tests: it stands behind the loop if the current cell is
zero, else at the beginning of the loop body. -/
theorem tracks_whileNonzero {program : Program} {o c bound : Nat}
    (he : Encloses program.instructions.toList o c) {body : State → Outcome}
    (hbody : ∀ {s m}, m.program = program → m.pc = o + 1 → Agrees limit prior s m →
      Tracks limit prior bound m c (body s))
    {fuel : Nat} (hle : fuel ≤ bound) (hprogram : m.program = program)
    (hpc : m.pc = if s.cell = 0 then c + 1 else o + 1) (h : Agrees limit prior s m) :
    Tracks limit prior fuel m (c + 1) (whileNonzero body fuel s) := by
  induction fuel generalizing s m with
  | zero => exact ⟨[], m, .nil m, le_rfl⟩
  | succ fuel ih =>
    unfold whileNonzero
    by_cases hz : s.cell = 0
    · rw [if_pos hz] at hpc ⊢
      exact ⟨[], m, .nil m, hpc, h⟩
    · rw [if_neg hz] at hpc ⊢
      have hb : Tracks limit prior (fuel + 1) m c (body s) :=
        (hbody hprogram hpc h).prepend (.nil m) (by simpa using hle)
      refine hb.andThen fun {s' steps m'} hw hpc' ha => ?_
      have hprogram' : m'.program = program := hw.frame.1.trans hprogram
      have hi : m'.instruction? = some .loopClose := by
        rw [instruction?_eq, hprogram', hpc']
        exact he.closing
      obtain ⟨step, position, hnext, hposition⟩ :=
        next_bracket ha (by rw [hprogram']; exact he) hi (Or.inr ⟨hpc', rfl⟩)
      have hcounted := ha.advanceFrom position s'.entries (s'.iterations + 1) (by omega)
      exact Tracks.prepend (Walk.single hnext) (ih (by omega) hprogram' hposition hcounted)
        (by simp only [List.length_singleton]; omega)

/-- **The machine goes where the evaluation of a nested program leads**, wherever in a program the
nested program stands.

**Proof sketch.** Induction on the nested program. A loop is entered by its `[`, which leads to
the invariant of its repetition. -/
theorem Block.tracks_eval (block : Block) (fuel : Nat) {front back : List Instruction}
    (hcode : m.program.instructions.toList = front ++ (block.code ++ back))
    (hpc : m.pc = front.length) (h : Agrees limit prior s m) :
    Tracks limit prior fuel m (front.length + block.code.length) (block.eval limit fuel s) := by
  induction block generalizing front back s m with
  | done => exact ⟨[], m, .nil m, hpc, h⟩
  | basic instruction rest ih =>
    have hi : m.instruction? = some (.ofSymbol instruction.symbol) := by
      rw [instruction?_eq, hcode, hpc]
      simp
    refine (tracks_perform h hi fuel).andThen fun {s' steps m'} hw hpc' ha => ?_
    have hcode' : m'.program.instructions.toList =
        (front ++ [.ofSymbol instruction.symbol]) ++ (rest.code ++ back) := by
      rw [hw.frame.1, hcode]
      simp
    have hrest := ih hcode' (by rw [hpc', hpc]; simp) ha
    convert hrest using 1
    simp only [code_basic, List.length_cons, List.length_append, List.length_nil]
    omega
  | loop body rest ihbody ihrest =>
    rw [code_loop, List.cons_append, List.append_assoc, List.cons_append] at hcode
    have he : Encloses m.program.instructions.toList front.length
        (front.length + 1 + body.code.length) := by
      rw [hcode]
      exact .of_balanced body.balanced_code
    have hi : m.instruction? = some .loopOpen := by
      rw [instruction?_eq, hpc]
      exact he.opening
    obtain ⟨step, position, hnext, hposition⟩ := next_bracket h he hi (Or.inl ⟨hpc, rfl⟩)
    have hbody : ∀ {s₁ : State} {m₁ : Machine}, m₁.program = m.program →
        m₁.pc = front.length + 1 → Agrees limit prior s₁ m₁ →
        Tracks limit prior fuel m₁ (front.length + 1 + body.code.length)
          (body.eval limit fuel s₁) := by
      intro s₁ m₁ hprogram hpc₁ h₁
      have hcode₁ : m₁.program.instructions.toList =
          (front ++ [.loopOpen]) ++ (body.code ++ .loopClose :: (rest.code ++ back)) := by
        rw [hprogram, hcode]
        simp
      have htracks := ihbody hcode₁ (by rw [hpc₁]; simp) h₁
      rwa [List.length_append] at htracks
    have hloop : Tracks limit prior fuel (m.advanceFrom position)
        (front.length + 1 + body.code.length + 1)
        (whileNonzero (body.eval limit fuel) fuel { s with entries := s.entries + 1 }) :=
      tracks_whileNonzero he hbody le_rfl rfl hposition
        (h.advanceFrom position (s.entries + 1) s.iterations (by omega))
    refine (hloop.prepend (Walk.single hnext) (by omega)).andThen fun {s' steps m'} hw hpc' ha => ?_
    have hcode' : m'.program.instructions.toList =
        (front ++ .loopOpen :: (body.code ++ [.loopClose])) ++ (rest.code ++ back) := by
      rw [hw.frame.1, hcode]
      simp
    have hrest := ihrest hcode' (by rw [hpc']; simp; omega) ha
    convert hrest using 1
    simp only [code_loop, List.length_cons, List.length_append, List.length_nil]
    omega

end Structured

end TapeMachine

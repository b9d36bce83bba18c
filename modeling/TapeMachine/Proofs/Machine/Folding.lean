import Mathlib.Tactic
import TapeMachine.Proofs.Machine.Walk
import TapeMachine.Proofs.Program.Expansion
import TapeMachine.Proofs.Tape.Access

/-!
# Folding preserves behaviour

A folded program and the program as it was written run side by side: each folded instruction is
matched by as many steps as it stands for symbols, and in between the two machines differ only in
where they stand and in how many instructions they have counted.

## Main definitions

* `TapeMachine.Unfolds` — the relation between the two machines.
* `TapeMachine.SameBehaviour` — neither run ends, or both end and did the same.

## Main results

* `TapeMachine.Unfolds.next` — one step of the folded program is a walk of the other.
* `TapeMachine.Unfolds.ended` — where the folded program cannot go on the other cannot either, for
  the same reason.
* `TapeMachine.Unfolds.sameBehaviour` — the runs end alike, or neither ends.
* `TapeMachine.fold_preserves_behaviour` — the same for a program text.
-/

set_option autoImplicit false

namespace TapeMachine

/-! ## Runs of one instruction -/

/-- Adding one as often as a byte says adds the byte. -/
lemma iterate_add_one (n : UInt8) : (fun x : UInt8 => x + 1)^[n.toNat] = (· + n) := by
  have hiter : ∀ (k : Nat) (x : UInt8), (fun x : UInt8 => x + 1)^[k] x = x + UInt8.ofNat k := by
    intro k
    induction k with
    | zero => simp
    | succ k ih =>
      intro x
      rw [Function.iterate_succ_apply', ih, UInt8.ofNat_add, ← UInt8.add_assoc]
      rfl
  funext x
  rw [hiter, UInt8.ofNat_toNat]

/-- Subtracting one as often as a byte says subtracts the byte. -/
lemma iterate_sub_one (n : UInt8) : (fun x : UInt8 => x - 1)^[n.toNat] = (· - n) := by
  have hiter : ∀ (k : Nat) (x : UInt8), (fun x : UInt8 => x - 1)^[k] x = x - UInt8.ofNat k := by
    intro k
    induction k with
    | zero => simp
    | succ k ih =>
      intro x
      rw [Function.iterate_succ_apply', ih, UInt8.ofNat_add, UInt8.sub_eq_add_neg x (_ + _),
        UInt8.neg_add, UInt8.sub_eq_add_neg (-_), ← UInt8.add_assoc, ← UInt8.sub_eq_add_neg,
        ← UInt8.sub_eq_add_neg]
      rfl
  funext x
  rw [hiter, UInt8.ofNat_toNat]

namespace Machine

variable {m m' : Machine} {g : UInt8 → UInt8}

/-- A change of the current cell succeeds when the cell is not refused. -/
lemma updateCell_of_refusal?_eq_none (h : m.tape.refusal? m.dp = none) :
    m.updateCell g = (.ok (), { m with
      tape := (m.tape.extend m.dp).modify m.dp g
      pc := m.pc + 1
      executed := m.executed + 1 }) := by
  simp only [updateCell, h, advanceFrom]

/-- Whether the current cell can be changed does not depend on the change. -/
lemma updateCell_of_error {fault : Fault} (h : m.updateCell g = (.error fault, m'))
    (f : UInt8 → UInt8) : m.updateCell f = (.error fault, m') := by
  unfold updateCell at h ⊢
  split
  · rename_i hr
    rw [hr] at h
    exact h
  · rename_i hr
    rw [hr] at h
    cases h

/-- **A run of one instruction** that changes the current cell comes to one change of it.

**Proof sketch.** Induction on the length of the run. The first change stores the cell, so that no
later one can be refused, and the changes of a stored cell compose. -/
lemma walk_of_run {i : Instruction} (hg : ∀ m : Machine, m.execute i = m.updateCell g) {n : Nat}
    (hn : 1 ≤ n) (hf : m.finished = false)
    (hrun : ∀ k < n, m.program.instructions[m.pc + k]? = some i)
    (h : m.updateCell g^[n] = (.ok (), m')) :
    ∃ steps, Walk m steps (m'.relocate m.program (m.pc + n) (m.executed + n)) ∧
      steps.length = n := by
  have hnone : m.tape.refusal? m.dp = none := by
    unfold updateCell at h
    split at h
    · cases h
    · assumption
  rw [updateCell_of_refusal?_eq_none hnone] at h
  cases h
  induction n, hn using Nat.le_induction generalizing m with
  | base =>
    have hi : m.instruction? = some i := hrun 0 Nat.one_pos
    refine ⟨_, Walk.single (next_eq_ok_iff.mpr ⟨hf, i, hi, ?_, rfl⟩), rfl⟩
    rw [hg, updateCell_of_refusal?_eq_none hnone]
    rfl
  | succ n hn ih =>
    have hi : m.instruction? = some i := hrun 0 (by omega)
    set m₁ : Machine := { m with
      tape := (m.tape.extend m.dp).modify m.dp g
      pc := m.pc + 1
      executed := m.executed + 1 } with hm₁
    have hstep : m.execute i = (.ok (), m₁) := by
      rw [hg, updateCell_of_refusal?_eq_none hnone]
    have hstored : m₁.tape.shortfall m₁.dp = 0 := by simp [hm₁]
    obtain ⟨steps, hw, hlen⟩ := ih (m := m₁) hf
      (fun k hk => by rw [← hrun (k + 1) (by omega)]; congr 1; simp [hm₁]; omega)
      (Tape.refusal?_of_shortfall _ _ hstored)
    refine ⟨_ :: steps, .cons (next_eq_ok_iff.mpr ⟨hf, i, hi, hstep, rfl⟩) ?_, by simp [hlen]⟩
    have htape : (m₁.tape.extend m₁.dp).modify m₁.dp g^[n] =
        (m.tape.extend m.dp).modify m.dp g^[n + 1] := by
      rw [Tape.extend_of_shortfall _ _ hstored, hm₁, Tape.modify_modify, ← Function.iterate_succ]
    convert hw using 1
    rw [htape]
    simp only [relocate, hm₁]
    congr 1 <;> omega

/-- An instruction that fails would fail at once if it stood for a single symbol. -/
lemma execute_ofSymbol_of_error {i : Instruction} {fault : Fault}
    (h : m.execute i = (.error fault, m')) :
    m.execute (.ofSymbol i.symbol) = (.error fault, m') := by
  cases i with
  | incr n | decr n => exact updateCell_of_error h _
  | _ => exact h

/-- Two runs have the same outcome: both are complete, and each reports what its machine has done,
or both fail for the same reason. -/
def SameOutcome (r : Except Fault Stats) (m : Machine) (r' : Except Fault Stats)
    (m' : Machine) : Prop :=
  r = .ok m.stats ∧ r' = .ok m'.stats ∨ ∃ fault, r = .error fault ∧ r' = .error fault

/-- A run ends alike at every place. -/
lemma finish_relocate {r : Except Fault Stats} (h : m.finish = (r, m')) (program : Program)
    (pc executed : Nat) :
    ∃ r', (m.relocate program pc executed).finish = (r', m'.relocate program pc executed) ∧
      SameOutcome r m' r' (m'.relocate program pc executed) := by
  rcases hflush : m.output.flush with ⟨cause | _, output⟩ <;>
    simp only [finish, relocate, hflush] at h ⊢
  · cases h
    exact ⟨_, rfl, Or.inr ⟨.io cause, rfl, rfl⟩⟩
  · cases h
    exact ⟨_, rfl, Or.inl ⟨rfl, rfl⟩⟩

/-- The end of a run leaves the machine where it stands. -/
lemma finish_frame {r : Except Fault Stats} (h : m.finish = (r, m')) :
    m'.program = m.program ∧ m'.pc = m.pc ∧ m'.executed = m.executed := by
  unfold finish at h
  split at h <;>
  · cases h
    exact ⟨rfl, rfl, rfl⟩

end Machine

/-! ## The two machines side by side -/

/-- A machine that executes a folded program, and one that executes the program as it was written,
at the same instruction of the text and in the same state. -/
structure Unfolds (folded plain : Machine) : Prop where
  text : plain.program.instructions.toList = expand folded.program.instructions.toList
  count_pos : ∀ i ∈ folded.program.instructions.toList, 0 < i.count
  pc : plain.pc = sourcePosition folded.program.instructions.toList folded.pc
  state : plain = folded.relocate plain.program plain.pc plain.executed

/-- How many symbols more than instructions the steps of a folded program stand for. -/
def foldedAway (steps : List Step) : Nat :=
  (steps.map fun step => step.instruction.count - 1).sum

open Machine in
/-- Two runs that have ended did the same: a run of a folded program from the machine `start`, with
the result `r` and the machine `folded`, and a run of the program as it was written, with `r'` and
`plain`. -/
structure SameEnd (start : Machine) (r : Except Fault Stats) (folded : Machine)
    (r' : Except Fault Stats) (plain : Machine) : Prop where
  /-- The outcome is the same. -/
  outcome : SameOutcome r folded r' plain
  /-- The data pointer is the same. -/
  dp : plain.dp = folded.dp
  /-- The cells are the same and as many. -/
  tape : plain.tape = folded.tape
  /-- The same input is left, and as much has been consumed. -/
  input : plain.input = folded.input
  /-- The writer has met the same, the same bytes are pending, and as many have been written. -/
  output : plain.output = folded.output
  /-- Both machines have finished, or neither has. -/
  finished : plain.finished = folded.finished
  /-- The machines stand at the same instruction of the text. -/
  pc : plain.pc = sourcePosition folded.program.instructions.toList folded.pc
  /-- An instruction that stands for `n` symbols is counted once in the one run and `n` times in
  the other. -/
  executed : ∃ steps m₁, Walk start steps m₁ ∧ m₁.advance = .ended r folded ∧
    plain.executed = folded.executed + foldedAway steps

/-- A program and its folded form behave alike: either neither run ends, or both end and did the
same. -/
structure SameBehaviour (folded plain : Machine) : Prop where
  diverges : folded.Diverges ↔ plain.Diverges
  of_folded : ∀ r folded', folded.RunsTo r folded' →
    ∃ r' plain', plain.RunsTo r' plain' ∧ SameEnd folded r folded' r' plain'
  of_plain : ∀ r' plain', plain.RunsTo r' plain' →
    ∃ r folded', folded.RunsTo r folded' ∧ SameEnd folded r folded' r' plain'

namespace Unfolds

open Machine

variable {folded plain folded' : Machine}

/-- The machines at the start of a text are in the relation. -/
lemma start {source : List UInt8} {p q : Program} (hp : Program.load source true = .ok p)
    (hq : Program.load source false = .ok q) (config : Config) (reader : Reader)
    (writer : Writer) :
    Unfolds (.start p config reader writer) (.start q config reader writer) where
  text := by
    change q.instructions.toList = expand p.instructions.toList
    rw [Program.expand_instructions hp, (Program.load_spec hq).2]
    rfl
  count_pos := Program.count_pos hp
  pc := rfl
  state := rfl

/-- Machines in the relation stay in it when both take up the same state at the same instruction
of the text. -/
lemma relocate (h : Unfolds folded plain) (hprogram : folded'.program = folded.program)
    {pc executed : Nat}
    (hpc : pc = sourcePosition folded.program.instructions.toList folded'.pc) :
    Unfolds folded' (folded'.relocate plain.program pc executed) where
  text := by rw [hprogram]; exact h.text
  count_pos := by rw [hprogram]; exact h.count_pos
  pc := by rw [hprogram]; exact hpc
  state := rfl

/-- Where an instruction of the folded program stands, the other program has the run that it
stands for. -/
lemma instruction? (h : Unfolds folded plain) {i : Instruction}
    (hi : folded.instruction? = some i) {k : Nat} (hk : k < i.count) :
    plain.program.instructions[plain.pc + k]? = some (.ofSymbol i.symbol) := by
  rw [← Array.getElem?_toList, h.text, h.pc]
  rw [instruction?_eq] at hi
  exact getElem?_sourcePosition_add hi hk

/-- A folded instruction stands for something. -/
lemma count_pos_of_instruction? (h : Unfolds folded plain) {i : Instruction}
    (hi : folded.instruction? = some i) : 0 < i.count := by
  rw [instruction?_eq] at hi
  exact h.count_pos i (List.mem_of_getElem? hi)

/-- The jumps of the two programs lead to the same instructions of the text. -/
lemma target (h : Unfolds folded plain) {i : Instruction} (hi : folded.instruction? = some i)
    (hb : i = .loopOpen ∨ i = .loopClose) :
    plain.program.jumps.target plain.pc + 1 =
      sourcePosition folded.program.instructions.toList
        (folded.program.jumps.target folded.pc + 1) := by
  rw [instruction?_eq] at hi
  have hf := folded.program.resolved
  have hp := plain.program.resolved
  rw [h.pc]
  rcases hb with rfl | rfl
  · obtain ⟨j, he⟩ := JumpTable.exists_closing hf hi
    rw [h.text] at hp
    rw [(JumpTable.target_of_encloses hf he).1, (JumpTable.target_of_encloses hp he.expand).1,
      sourcePosition_succ he.closing]
    rfl
  · obtain ⟨j, he⟩ := JumpTable.exists_opening hf hi
    rw [h.text] at hp
    rw [(JumpTable.target_of_encloses hf he).2, (JumpTable.target_of_encloses hp he.expand).2,
      sourcePosition_succ he.opening]
    rfl

/-- The two machines jump alike. -/
lemma branch (h : Unfolds folded plain) (hfin : folded.finished = false) {i : Instruction}
    (hi : folded.instruction? = some i) (hb : i = .loopOpen ∨ i = .loopClose) {jump : Bool}
    (hjump : ∀ m : Machine, m.cell = folded.cell → m.execute i = m.branch jump) :
    ∃ steps plain', Walk plain steps plain' ∧ steps.length = 1 ∧
      Unfolds (folded.branch jump).2 plain' := by
  have hone : i.count = 1 := by rcases hb with rfl | rfl <;> rfl
  have hsymbol : Instruction.ofSymbol i.symbol = i := by rcases hb with rfl | rfl <;> rfl
  have hp : plain.instruction? = some i := by
    have := h.instruction? hi (k := 0) (by omega)
    rwa [hsymbol] at this
  have hcell : plain.cell = folded.cell := by rw [h.state]; rfl
  have hstep := next_eq_ok_iff.mpr
    ⟨by rw [h.state]; exact hfin, i, hp, hjump plain hcell, rfl⟩
  refine ⟨_, _, Walk.single hstep, rfl, ?_⟩
  have hsucc := sourcePosition_succ (by rwa [instruction?_eq] at hi)
  have hplain : plain.advanceFrom (if jump then plain.program.jumps.target plain.pc else plain.pc) =
      (folded.branch jump).2.relocate plain.program
        (sourcePosition folded.program.instructions.toList (folded.branch jump).2.pc)
        (plain.executed + 1) := by
    have hpc : (if jump then plain.program.jumps.target plain.pc else plain.pc) + 1 =
        sourcePosition folded.program.instructions.toList (folded.branch jump).2.pc := by
      simp only [Machine.branch, advanceFrom]
      cases jump with
      | true => exact h.target hi hb
      | false =>
        simp only [Bool.false_eq_true, if_false]
        rw [hsucc, hone, h.pc]
    rw [← hpc, h.state]
    rfl
  change Unfolds _ (plain.advanceFrom _)
  rw [hplain]
  exact h.relocate (show (folded.branch jump).2.program = folded.program from rfl) rfl

/-- A change of the current cell by a folded instruction is a run of changes by the other
machine. -/
lemma run (h : Unfolds folded plain) (hfin : folded.finished = false) {i : Instruction}
    (hi : folded.instruction? = some i) (ho : i ≠ .loopOpen) (hc : i ≠ .loopClose)
    (he : folded.execute i = (.ok (), folded')) {g : UInt8 → UInt8}
    (hg : ∀ m : Machine, m.execute (.ofSymbol i.symbol) = m.updateCell g)
    (heq : folded.execute i = folded.updateCell g^[i.count]) :
    ∃ steps plain', Walk plain steps plain' ∧ steps.length = i.count ∧ Unfolds folded' plain' := by
  have hfin' : plain.finished = false := by rw [h.state]; exact hfin
  have hplace := place_of_ok ho hc he
  have hup : plain.updateCell g^[i.count] =
      (.ok (), folded'.relocate plain.program (plain.pc + 1) (plain.executed + 1)) := by
    rw [h.state, updateCell_relocate, ← heq, he]
    rfl
  obtain ⟨steps, hw, hlen⟩ := walk_of_run hg (h.count_pos_of_instruction? hi) hfin'
    (fun k hk => h.instruction? hi hk) hup
  refine ⟨steps, _, hw, hlen, h.relocate (counted_of_ok he).1 ?_⟩
  rw [hplace, h.pc]
  exact (sourcePosition_succ (by rwa [instruction?_eq] at hi)).symm

/-- Any other instruction that is no bracket is executed by both machines. -/
lemma single (h : Unfolds folded plain) (hfin : folded.finished = false) {i : Instruction}
    (hi : folded.instruction? = some i) (ho : i ≠ .loopOpen) (hc : i ≠ .loopClose)
    (he : folded.execute i = (.ok (), folded')) (hone : i.count = 1)
    (hsymbol : Instruction.ofSymbol i.symbol = i) :
    ∃ steps plain', Walk plain steps plain' ∧ steps.length = i.count ∧ Unfolds folded' plain' := by
  have hfin' : plain.finished = false := by rw [h.state]; exact hfin
  have hplace := place_of_ok ho hc he
  have hp : plain.instruction? = some i := by
    have := h.instruction? hi (k := 0) (by omega)
    rwa [hsymbol] at this
  have hexec : plain.execute i =
      (.ok (), folded'.relocate plain.program (plain.pc + 1) (plain.executed + 1)) := by
    rw [h.state, execute_relocate _ _ _ ho hc, he]
    rfl
  refine ⟨_, _, Walk.single (next_eq_ok_iff.mpr ⟨hfin', i, hp, hexec, rfl⟩), hone.symm,
    h.relocate (counted_of_ok he).1 ?_⟩
  have hsucc := sourcePosition_succ (by rwa [instruction?_eq] at hi)
  rw [hone] at hsucc
  rw [hplace, h.pc]
  exact hsucc.symm

/-- **One step of the folded program is a walk of the other**, of as many steps as the executed
instruction stands for. -/
theorem next (h : Unfolds folded plain) {step : Step} (hs : folded.next = (.ok step, folded')) :
    ∃ steps plain', Walk plain steps plain' ∧ steps.length = step.instruction.count ∧
      Unfolds folded' plain' := by
  obtain ⟨hfin, i, hi, he, rfl⟩ := next_eq_ok_iff.mp hs
  cases i with
  | incr n =>
    refine h.run hfin hi (by simp) (by simp) he (g := (· + 1)) (fun _ => rfl) ?_
    simp only [execute, Instruction.count, iterate_add_one]
  | decr n =>
    refine h.run hfin hi (by simp) (by simp) he (g := (· - 1)) (fun _ => rfl) ?_
    simp only [execute, Instruction.count, iterate_sub_one]
  | loopOpen =>
    cases he
    exact h.branch hfin hi (Or.inl rfl) fun m hm => by rw [execute, hm]
  | loopClose =>
    cases he
    exact h.branch hfin hi (Or.inr rfl) fun m hm => by rw [execute, hm]
  | _ => exact h.single hfin hi (by simp) (by simp) he rfl rfl

/-- **Where the folded program cannot go on the other cannot either**, for the same reason. -/
theorem ended (h : Unfolds folded plain) {r : Except Fault Stats}
    (hend : folded.advance = .ended r folded') :
    ∃ r' plain', plain.advance = .ended r' plain' ∧ Unfolds folded' plain' ∧
      SameOutcome r folded' r' plain' ∧ folded'.executed = folded.executed ∧
      plain'.executed = plain.executed := by
  rcases advance_eq_ended_iff.mp hend with ⟨hnone, hfinish⟩ | ⟨i, fault, hi, he, rfl⟩
  · have hnone' : plain.instruction? = none := by
      rw [instruction?_eq] at hnone ⊢
      rw [h.text, h.pc]
      exact getElem?_sourcePosition_of_none hnone
    obtain ⟨r', hfinish', hsame⟩ :=
      finish_relocate hfinish plain.program plain.pc plain.executed
    rw [← h.state] at hfinish'
    obtain ⟨hprogram, hpc, hexecuted⟩ := finish_frame hfinish
    refine ⟨r', _, advance_eq_ended_iff.mpr (Or.inl ⟨hnone', hfinish'⟩),
      h.relocate hprogram ?_, hsame, hexecuted, rfl⟩
    rw [hpc]
    exact h.pc
  · have hp := h.instruction? hi (k := 0) (h.count_pos_of_instruction? hi)
    have hplace := place_of_error he
    have hexec : plain.execute (.ofSymbol i.symbol) =
        (.error fault, folded'.relocate plain.program plain.pc plain.executed) := by
      have hsingle := execute_ofSymbol_of_error he
      obtain ⟨ho, hc⟩ := no_bracket_of_error hsingle
      rw [h.state, execute_relocate _ _ _ ho hc, hsingle]
      rfl
    refine ⟨_, _, advance_eq_ended_iff.mpr (Or.inr ⟨_, fault, hp, hexec, rfl⟩),
      h.relocate ?_ ?_, Or.inr ⟨fault, rfl, rfl⟩, ?_, rfl⟩
    · rw [hplace]
      rfl
    · rw [hplace]
      exact h.pc
    · rw [hplace]
      rfl

/-- A walk of the folded program is a walk of the other, with a step for each symbol that the
executed instructions stand for. -/
lemma walk (h : Unfolds folded plain) {steps : List Step} (hw : Walk folded steps folded') :
    ∃ steps' plain', Walk plain steps' plain' ∧
      steps'.length = steps.length + foldedAway steps ∧ Unfolds folded' plain' := by
  induction hw generalizing plain with
  | nil => exact ⟨[], plain, .nil plain, rfl, h⟩
  | @cons _ _ _ step steps hs _ ih =>
    obtain ⟨steps₁, plain₁, hw₁, hlen₁, h₁⟩ := h.next hs
    obtain ⟨steps₂, plain₂, hw₂, hlen₂, h₂⟩ := ih h₁
    refine ⟨steps₁ ++ steps₂, plain₂, hw₁.append hw₂, ?_, h₂⟩
    have hpos : 0 < step.instruction.count := by
      obtain ⟨-, i, hi, -, rfl⟩ := next_eq_ok_iff.mp hs
      exact h.count_pos_of_instruction? hi
    simp only [foldedAway] at hlen₂ ⊢
    simp only [List.length_append, List.length_cons, List.map_cons, List.sum_cons, hlen₁, hlen₂]
    omega

/-- **If the folded program ends so does the other**, in the same way. -/
theorem runsTo (h : Unfolds folded plain) (hf : folded.finished = false)
    (hcount : plain.executed = folded.executed) {r : Except Fault Stats}
    (hr : folded.RunsTo r folded') :
    ∃ r' plain', plain.RunsTo r' plain' ∧ SameEnd folded r folded' r' plain' := by
  have hf' : plain.finished = false := by
    rw [h.state]
    exact hf
  obtain ⟨steps, m₁, hw, hend⟩ := (runsTo_iff_walk hf).mp hr
  obtain ⟨steps', plain₁, hw', hlen, h₁⟩ := h.walk hw
  obtain ⟨r', plain', hend', h', hsame, hexec, hexec'⟩ := h₁.ended hend
  refine ⟨r', plain', (runsTo_iff_walk hf').mpr ⟨steps', plain₁, hw', hend'⟩, ?_⟩
  have hstate := h'.state
  refine ⟨hsame, ?_, ?_, ?_, ?_, ?_, h'.pc, steps, m₁, hw, hend, ?_⟩
  · rw [hstate]; rfl
  · rw [hstate]; rfl
  · rw [hstate]; rfl
  · rw [hstate]; rfl
  · rw [hstate]; rfl
  · rw [hexec, hexec', hw'.executed, hw.executed, hlen, hcount]
    omega

/-- **If the program as it was written ends so does the folded one.**

**Proof sketch.** A walk of the folded program is at most as long as the walk of the other that
goes with it. So the folded program cannot make more steps than the run of the other has. -/
theorem exists_runsTo (h : Unfolds folded plain) (hf : folded.finished = false)
    {r' : Except Fault Stats} {plain' : Machine} (hr : plain.RunsTo r' plain') :
    ∃ r folded', folded.RunsTo r folded' := by
  have hf' : plain.finished = false := by
    rw [h.state]
    exact hf
  obtain ⟨steps', plain₁, hw', hend'⟩ := (runsTo_iff_walk hf').mp hr
  refine (exists_walk_or_runsTo hf (steps'.length + 1)).resolve_left ?_
  rintro ⟨steps, m₁, hw, hlen⟩
  obtain ⟨steps'', plain₂, hw'', hlen'', -⟩ := h.walk hw
  have := hw'.length_le_of_ended hend' hw''
  omega

/-- **A program and its folded form behave alike.** -/
theorem sameBehaviour (h : Unfolds folded plain) (hf : folded.finished = false)
    (hcount : plain.executed = folded.executed) : SameBehaviour folded plain := by
  have hto : ∀ r folded', folded.RunsTo r folded' →
      ∃ r' plain', plain.RunsTo r' plain' ∧ SameEnd folded r folded' r' plain' :=
    fun _ _ hr => h.runsTo hf hcount hr
  have hfrom : ∀ r' plain', plain.RunsTo r' plain' →
      ∃ r folded', folded.RunsTo r folded' ∧ SameEnd folded r folded' r' plain' := by
    intro r' plain' hr'
    obtain ⟨r, folded', hr⟩ := h.exists_runsTo hf hr'
    obtain ⟨r'', plain'', hr'', hsame⟩ := hto r folded' hr
    obtain ⟨rfl, rfl⟩ := hr'.unique hr''
    exact ⟨r, folded', hr, hsame⟩
  refine ⟨?_, hto, hfrom⟩
  simp only [Machine.diverges_iff_not_runsTo]
  constructor
  · intro hd r' plain' hr'
    obtain ⟨r, folded', hr, -⟩ := hfrom r' plain' hr'
    exact hd r folded' hr
  · intro hd r folded' hr
    obtain ⟨r', plain', hr', -⟩ := hto r folded' hr
    exact hd r' plain' hr'

end Unfolds

/-! ## Program texts -/

/-- **Folding preserves behaviour.** A text that loads at all loads folded and as it was written,
and the two programs behave alike, whatever the set-up, the input and the writer. -/
theorem fold_preserves_behaviour {source : List UInt8} {fold : Bool} {p : Program}
    (h : Program.load source fold = .ok p) (config : Config) (reader : Reader) (writer : Writer) :
    ∃ folded plain, Program.load source true = .ok folded ∧
      Program.load source false = .ok plain ∧
      SameBehaviour (.start folded config reader writer) (.start plain config reader writer) := by
  have hb := (Program.exists_load_iff source fold).mp ⟨p, h⟩
  obtain ⟨folded, hfolded⟩ := (Program.exists_load_iff source true).mpr hb
  obtain ⟨plain, hplain⟩ := (Program.exists_load_iff source false).mpr hb
  exact ⟨folded, plain, hfolded, hplain,
    (Unfolds.start hfolded hplain config reader writer).sameBehaviour rfl rfl⟩

/-- The program `++[-]` behaves alike in both forms. -/
theorem fold_preserves_behaviour_of_countdown :
    ∃ p, Program.load [43, 43, 91, 45, 93] true = .ok p ∧
      ∃ folded plain, Program.load [43, 43, 91, 45, 93] true = .ok folded ∧
        Program.load [43, 43, 91, 45, 93] false = .ok plain ∧
        SameBehaviour (.start folded {} (.ofBytes []) {}) (.start plain {} (.ofBytes []) {}) := by
  obtain ⟨p, h⟩ := (Program.exists_load_iff [43, 43, 91, 45, 93] true).mpr (by decide)
  exact ⟨p, h, fold_preserves_behaviour h {} (.ofBytes []) {}⟩

end TapeMachine

import Mathlib.Tactic
import TapeMachine.Proofs.Machine.Placement

/-!
# A limit cuts a run short

The limit of the tape is asked about nothing but moves that lead to cells which are not stored. Up
to the first move that it refuses, a run under a limit is the run without one; at this move it ends.

## Main definitions

* `TapeMachine.stretch`, `TapeMachine.span` — the part of the tape that has been visited, and the
  number of its cells.
* `TapeMachine.Machine.withLimit` — a machine in the same state under another limit.
* `TapeMachine.Machine.Free` — a machine on a tape without a limit.
* `TapeMachine.CutShort` — what a limit does to the run of a machine.

## Main results

* `TapeMachine.Tape.refusal?_withLimit` — a limit refuses an address exactly when with it too many
  cells are visited.
* `TapeMachine.Machine.Free.next_withLimit`, `TapeMachine.Machine.Free.execute_of_refused` — one
  step under a limit.
* `TapeMachine.Machine.Free.walk_withLimit`, `TapeMachine.Machine.Free.exists_walk_of_withLimit` —
  the walks under a limit are the walks that keep within it.
* `TapeMachine.limit_cuts_run_short` — what a limit does to the run of a program.
-/

set_option autoImplicit false

namespace TapeMachine

/-! ## The part of the tape that has been visited -/

/-- The least stretch of the tape that holds a stretch and an address. -/
def reach (s : Int × Int) (a : Int) : Int × Int := (min s.1 a, max s.2 a)

/-- The number of cells of a stretch of the tape. -/
def width (s : Int × Int) : Int := s.2 - s.1 + 1

/-- The least stretch of the tape that holds a stretch and the data pointers behind some steps. -/
def stretch (s : Int × Int) (steps : List Step) : Int × Int :=
  steps.foldl (fun s step => reach s step.dp) s

/-- The span of the data pointers of a walk from the cell `0`: the greatest less the least of them,
plus one. -/
def span (steps : List Step) : Int := width (stretch (0, 0) steps)

lemma width_le_width_reach (s : Int × Int) (a : Int) : width s ≤ width (reach s a) := by
  simp only [width, reach]
  omega

/-- More steps do not visit fewer cells. -/
lemma width_le_width_stretch (s : Int × Int) (steps : List Step) :
    width s ≤ width (stretch s steps) := by
  induction steps generalizing s with
  | nil => exact le_rfl
  | cons step steps ih => exact (width_le_width_reach s step.dp).trans (ih _)

/-! ## Tapes under another limit -/

namespace Tape

variable (t : Tape) (limit : Option Nat) (n : Nat) (a b : Int)

/-- The same cells under another limit. -/
def withLimit : Tape := { t with limit }

@[simp]
lemma read_withLimit : (t.withLimit limit).read a = t.read a := by
  cases a <;> rfl

@[simp]
lemma extent_withLimit : (t.withLimit limit).extent = t.extent := rfl

@[simp]
lemma extend_withLimit : (t.withLimit limit).extend a = (t.extend a).withLimit limit := by
  cases a <;> rfl

@[simp]
lemma modify_withLimit (f : UInt8 → UInt8) :
    (t.withLimit limit).modify a f = (t.modify a f).withLimit limit := by
  cases a <;> rfl

variable {t n} in
/-- **A limit refuses an address** exactly when with this address there are more cells than the
limit allows. The cell `0` is always allowed. -/
theorem refusal?_withLimit (h : width t.extent ≤ max 1 n) :
    (t.withLimit (some n)).refusal? a =
      if width (reach t.extent a) ≤ max 1 n then none else some ⟨a, n⟩ := by
  have ho := t.zero_mem_extent
  split
  · rename_i hle
    by_contra hne
    obtain ⟨e, he⟩ := Option.ne_none_iff_exists'.mp hne
    obtain ⟨hout, limit, hlimit, hlt, -⟩ := (refusal?_eq_some_iff _ a).mp he
    cases hlimit
    simp only [extent_withLimit] at hout hlt
    simp only [width, reach] at h hle
    omega
  · rename_i hlt
    simp only [width, reach] at h hlt
    refine (refusal?_eq_some_iff _ a).mpr ⟨?_, n, rfl, ?_, rfl⟩ <;>
    · simp only [extent_withLimit]
      omega

end Tape

/-! ## Machines under another limit -/

namespace Machine

variable {m m' m₁ : Machine} {i : Instruction} {n : Nat} {report : Step} {steps : List Step}
  {r : Except Fault Stats}

/-- The same machine under another limit of its tape. -/
def withLimit (m : Machine) (limit : Option Nat) : Machine :=
  { m with tape := m.tape.withLimit limit }

@[simp]
lemma cell_withLimit (m : Machine) (limit : Option Nat) : (m.withLimit limit).cell = m.cell :=
  Tape.read_withLimit _ _ _

/-- The address that is current behind an instruction. -/
def destination (m : Machine) : Instruction → Int
  | .right => m.dp + 1
  | .left => m.dp - 1
  | _ => m.dp

/-- Whether an instruction moves the data pointer. -/
def moves (i : Instruction) : Prop := i = .right ∨ i = .left

lemma destination_of_not_moves (m : Machine) (h : ¬ moves i) : m.destination i = m.dp := by
  cases i with
  | right | left => simp [moves] at h
  | _ => rfl

/-- The data pointer stands at the destination afterwards, even if a move is refused. -/
lemma dp_execute (m : Machine) (i : Instruction) : (m.execute i).2.dp = m.destination i := by
  cases i with
  | loopOpen | loopClose => rfl
  | _ =>
    simp only [execute, moveTo, updateCell, emit, receive]
    split <;> rfl

/-- An instruction whose destination the limit allows has the same effect under the limit. -/
lemma execute_withLimit {limit : Option Nat} (h : m.tape.refusal? (m.destination i) = none)
    (h' : (m.tape.withLimit limit).refusal? (m.destination i) = none) :
    (m.withLimit limit).execute i =
      ((m.execute i).1, (m.execute i).2.withLimit limit) := by
  cases i with
  | loopOpen | loopClose => simp only [execute, cell_withLimit]; rfl
  | output =>
    simp only [execute, emit, cell_withLimit]
    rcases hpush : m.output.push m.cell with ⟨_ | _, output⟩ <;>
      simp only [withLimit, hpush, advanceFrom]
  | right | left =>
    simp only [destination] at h h'
    simp only [execute, moveTo, withLimit, h, h', advanceFrom, Tape.extend_withLimit]
  | incr | decr | input =>
    simp only [destination] at h h'
    simp only [execute, receive, updateCell, withLimit, h, h', advanceFrom, Tape.extend_withLimit,
      Tape.modify_withLimit]

/-- A run ends alike under every limit. -/
lemma finish_withLimit (m : Machine) (limit : Option Nat) :
    (m.withLimit limit).finish = (m.finish.1, m.finish.2.withLimit limit) := by
  rcases hflush : m.output.flush with ⟨_ | _, output⟩
  · simp only [finish, withLimit, hflush]
  · simp only [finish, withLimit, hflush]
    rfl

/-- A machine that stands on a tape without a limit. -/
structure Free (m : Machine) : Prop where
  stored : m.Stored
  limit : m.tape.limit = none

namespace Free

/-- Without a limit a move does not fail. -/
lemma exists_execute (h : m.Free) (hi : moves i) : ∃ m', m.execute i = (.ok (), m') := by
  rcases hi with rfl | rfl <;>
  · simp only [execute, moveTo, Tape.refusal?_of_limit_eq_none _ _ h.limit]
    exact ⟨_, rfl⟩

/-- A single step visits the cell that is current behind it. -/
lemma next (h : m.Free) (hs : m.next = (.ok report, m')) :
    m'.Free ∧ m'.tape.extent = reach m.tape.extent report.dp := by
  obtain ⟨-, i, -, he, rfl⟩ := next_eq_ok_iff.mp hs
  have hvisits := h.stored.visits he
  refine ⟨⟨hvisits.stored, hvisits.limit.trans h.limit⟩, ?_⟩
  rw [hvisits.extent, Tape.extent_extend]
  rfl

/-- A walk visits the cells that are current behind its steps. -/
lemma walk (h : m.Free) (hw : Walk m steps m') :
    m'.Free ∧ m'.tape.extent = stretch m.tape.extent steps := by
  induction hw with
  | nil => exact ⟨h, rfl⟩
  | cons hs _ ih =>
    obtain ⟨h₁, hextent⟩ := h.next hs
    rw [hextent] at ih
    exact ih h₁

/-- An instruction that leads to an address within the limit has the same effect under the
limit. -/
lemma execute_withLimit (h : m.Free) (hn : width (reach m.tape.extent (m.destination i)) ≤ max 1 n) :
    (m.withLimit (some n)).execute i =
      ((m.execute i).1, (m.execute i).2.withLimit (some n)) := by
  refine Machine.execute_withLimit (Tape.refusal?_of_limit_eq_none _ _ h.limit) ?_
  rw [Tape.refusal?_withLimit _ ((width_le_width_reach _ _).trans hn), if_pos hn]

/-- A single step that keeps within the limit is a step under the limit. -/
lemma next_withLimit (h : m.Free) (hs : m.next = (.ok report, m'))
    (hn : width (reach m.tape.extent report.dp) ≤ max 1 n) :
    (m.withLimit (some n)).next = (.ok report, m'.withLimit (some n)) := by
  obtain ⟨hf, i, hi, he, rfl⟩ := next_eq_ok_iff.mp hs
  have hdp := dp_execute m i
  rw [he] at hdp
  refine next_eq_ok_iff.mpr ⟨hf, i, hi, ?_, ?_⟩
  · rw [h.execute_withLimit (by rw [← hdp]; exact hn), he]
  · rw [cell_withLimit]
    rfl

/-- An instruction that would exceed the limit is a move, and is refused. -/
lemma execute_of_refused (h : m.Free) (hn : width m.tape.extent ≤ max 1 n)
    (hlt : max 1 n < width (reach m.tape.extent (m.destination i))) :
    moves i ∧ (m.withLimit (some n)).execute i =
      (.error (.outOfCells ⟨m.destination i, n⟩),
        { m with dp := m.destination i }.withLimit (some n)) := by
  have hmoves : moves i := by
    by_contra hi
    rw [destination_of_not_moves m hi] at hlt
    have hstored := h.stored
    simp only [Stored] at hstored
    simp only [width, reach] at hlt hn
    omega
  have hrefusal := Tape.refusal?_withLimit (m.destination i) hn
  rw [if_neg (by omega)] at hrefusal
  refine ⟨hmoves, ?_⟩
  rcases hmoves with rfl | rfl <;>
  · simp only [destination] at hrefusal ⊢
    simp only [execute, moveTo, withLimit, hrefusal]

/-- Where a run ends it ends under the limit too. -/
lemma advance_withLimit_of_ended (h : m.Free) (hn : width m.tape.extent ≤ max 1 n)
    (hend : m.advance = .ended r m') :
    (m.withLimit (some n)).advance = .ended r (m'.withLimit (some n)) := by
  rcases advance_eq_ended_iff.mp hend with ⟨hi, hfinish⟩ | ⟨i, fault, hi, he, rfl⟩
  · refine advance_eq_ended_iff.mpr (Or.inl ⟨hi, ?_⟩)
    rw [finish_withLimit, hfinish]
  · refine advance_eq_ended_iff.mpr (Or.inr ⟨i, fault, hi, ?_, rfl⟩)
    have hwithin : width (reach m.tape.extent (m.destination i)) ≤ max 1 n := by
      by_contra hlt
      -- a move would not fail without a limit
      obtain ⟨m₁, hok⟩ := h.exists_execute (h.execute_of_refused hn (not_le.mp hlt)).1
      rw [hok] at he
      cases he
    rw [h.execute_withLimit hwithin, he]

/-! ## Walks under a limit -/

/-- **A walk that keeps within the limit** is a walk under the limit.

**Proof sketch.** Induction on the walk. A walk that keeps within the limit in the end has kept
within it all the time, since the part that has been visited does not shrink. -/
theorem walk_withLimit (h : m.Free) (hw : Walk m steps m')
    (hn : width (stretch m.tape.extent steps) ≤ max 1 n) :
    Walk (m.withLimit (some n)) steps (m'.withLimit (some n)) := by
  induction hw with
  | nil m => exact .nil _
  | @cons m m₁ m' report steps hs _ ih =>
    obtain ⟨h₁, hextent⟩ := h.next hs
    have hstep : width (reach m.tape.extent report.dp) ≤ max 1 n :=
      (width_le_width_stretch _ steps).trans hn
    refine .cons (h.next_withLimit hs hstep) (ih h₁ ?_)
    rw [hextent]
    exact hn

/-- **A walk under a limit** is a walk that keeps within the limit. -/
theorem exists_walk_of_withLimit (h : m.Free) (hn : width m.tape.extent ≤ max 1 n)
    (hw : Walk (m.withLimit (some n)) steps m') :
    ∃ m₁, Walk m steps m₁ ∧ m' = m₁.withLimit (some n) ∧
      width (stretch m.tape.extent steps) ≤ max 1 n := by
  generalize hstart : m.withLimit (some n) = m₀ at hw
  induction hw generalizing m with
  | nil => exact ⟨m, .nil m, hstart.symm, hn⟩
  | @cons m₀ m₁' m' report steps hs _ ih =>
    subst hstart
    obtain ⟨hf, i, hi, he, rfl⟩ := next_eq_ok_iff.mp hs
    have hwithin : width (reach m.tape.extent (m.destination i)) ≤ max 1 n := by
      by_contra hlt
      rw [(h.execute_of_refused hn (not_le.mp hlt)).2] at he
      cases he
    rw [h.execute_withLimit hwithin] at he
    rcases hfree : m.execute i with ⟨_ | ⟨⟩, m₁⟩
    · rw [hfree] at he
      cases he
    · rw [hfree] at he
      cases he
      have hdp := dp_execute m i
      rw [hfree] at hdp
      rw [← hdp] at hwithin
      have hnext : m.next = (.ok ⟨m.pc, i, m₁.pc, m₁.dp, m₁.cell⟩, m₁) :=
        next_eq_ok_iff.mpr ⟨hf, i, hi, hfree, rfl⟩
      obtain ⟨h₁, hextent⟩ := h.next hnext
      obtain ⟨m₂, hw, rfl, hspan⟩ := ih h₁ (hextent ▸ hwithin) rfl
      rw [hextent] at hspan
      rw [cell_withLimit]
      exact ⟨m₂, .cons hnext hw, rfl, hspan⟩

/-! ## Runs under a limit -/

/-- A walk that exceeds the limit does so by some first step. -/
lemma exists_first_beyond (h : m.Free) (hw : Walk m steps m') (hn : width m.tape.extent ≤ max 1 n)
    (hlt : max 1 n < width (stretch m.tape.extent steps)) :
    ∃ steps₁ report m₁ m₂, Walk m steps₁ m₁ ∧ m₁.next = (.ok report, m₂) ∧
      width (stretch m.tape.extent steps₁) ≤ max 1 n ∧
      max 1 n < width (stretch m.tape.extent (steps₁ ++ [report])) := by
  induction hw with
  | nil => exact absurd hn (not_le.mpr hlt)
  | @cons m m₁ m' report steps hs _ ih =>
    obtain ⟨h₁, hextent⟩ := h.next hs
    by_cases hstep : width (reach m.tape.extent report.dp) ≤ max 1 n
    · rw [hextent] at ih
      obtain ⟨steps₁, report', m₂, m₃, hw, hs', hle, hgt⟩ := ih h₁ hstep hlt
      exact ⟨report :: steps₁, report', m₂, m₃, .cons hs hw, hs', hle, hgt⟩
    · exact ⟨[], report, m, m₁, .nil m, hs, hn, not_le.mp hstep⟩

/-- **The first step that exceeds the limit** is a move, and the run under the limit ends at it. -/
theorem runsTo_of_beyond (h : m.Free) (hf : m.finished = false) (hw : Walk m steps m₁)
    (hs : m₁.next = (.ok report, m')) (hn : width (stretch m.tape.extent steps) ≤ max 1 n)
    (hlt : max 1 n < width (stretch m.tape.extent (steps ++ [report]))) :
    moves report.instruction ∧
      (m.withLimit (some n)).RunsTo (.error (.outOfCells ⟨report.dp, n⟩))
        ({ m₁ with dp := report.dp }.withLimit (some n)) := by
  obtain ⟨h₁, hextent⟩ := h.walk hw
  obtain ⟨-, i, hi, he, rfl⟩ := next_eq_ok_iff.mp hs
  have hdp : m'.dp = m₁.destination i := by
    rw [← dp_execute, he]
  have hbeyond : max 1 n < width (reach m₁.tape.extent (m₁.destination i)) := by
    rw [hextent, ← hdp]
    simpa [stretch] using hlt
  obtain ⟨hmoves, hrefused⟩ := h₁.execute_of_refused (hextent ▸ hn) hbeyond
  refine ⟨hmoves, (runsTo_iff_walk (m := m.withLimit (some n)) hf).mpr
    ⟨steps, _, h.walk_withLimit hw hn, ?_⟩⟩
  rw [← hdp] at hrefused
  exact advance_eq_ended_iff.mpr (Or.inr ⟨i, _, hi, hrefused, rfl⟩)

/-- **A run that keeps within the limit** is a run under the limit. -/
theorem runsTo_withLimit_iff (h : m.Free) (hf : m.finished = false)
    (hn : ∀ steps m₁, Walk m steps m₁ → width (stretch m.tape.extent steps) ≤ max 1 n) :
    (m.withLimit (some n)).RunsTo r m' ↔ ∃ m₁, m.RunsTo r m₁ ∧ m' = m₁.withLimit (some n) := by
  have hstart := hn [] m (.nil m)
  constructor
  · intro hr
    obtain ⟨steps, m₂, hw, hend⟩ := (runsTo_iff_walk (m := m.withLimit (some n)) hf).mp hr
    obtain ⟨m₁, hw₁, rfl, hle⟩ := h.exists_walk_of_withLimit hstart hw
    obtain ⟨h₁, hextent⟩ := h.walk hw₁
    have hf₁ : m₁.finished = false := hw₁.frame.2.trans hf
    cases ha : m₁.advance with
    | ended r₁ m₂ =>
      have hend₁ := h₁.advance_withLimit_of_ended (hextent ▸ hle) ha
      rw [hend] at hend₁
      cases hend₁
      exact ⟨m₂, (runsTo_iff_walk hf).mpr ⟨steps, m₁, hw₁, ha⟩, rfl⟩
    | running m₂ =>
      -- the walk goes on, and keeps within the limit
      obtain ⟨report, hs⟩ := (advance_eq_running_iff_next hf₁).mp ha
      have hw₂ := h.walk_withLimit (hw₁.append (.single hs)) (hn _ _ (hw₁.append (.single hs)))
      have hlen := hw.length_le_of_ended hend hw₂
      simp at hlen
  · rintro ⟨m₁, hr, rfl⟩
    obtain ⟨steps, m₂, hw, hend⟩ := (runsTo_iff_walk hf).mp hr
    obtain ⟨h₂, hextent⟩ := h.walk hw
    exact (runsTo_iff_walk (m := m.withLimit (some n)) hf).mpr ⟨steps, _,
      h.walk_withLimit hw (hn _ _ hw), h₂.advance_withLimit_of_ended (hextent ▸ hn _ _ hw) hend⟩

/-- A run under a limit that does not end for want of cells keeps within the limit. -/
lemma within_of_not_outOfCells (h : m.Free) (hf : m.finished = false)
    (hstart : width m.tape.extent ≤ max 1 n)
    (hr : ∀ refusal m', ¬ (m.withLimit (some n)).RunsTo (.error (.outOfCells refusal)) m')
    {steps : List Step} {m₁ : Machine} (hw : Walk m steps m₁) :
    width (stretch m.tape.extent steps) ≤ max 1 n := by
  by_contra hlt
  obtain ⟨steps₁, report, m₂, m₃, hw₂, hs, hle, hgt⟩ :=
    h.exists_first_beyond hw hstart (not_le.mp hlt)
  exact hr _ _ (h.runsTo_of_beyond hf hw₂ hs hle hgt).2

/-- The cells that are counted at the end of a run are those that have been visited. -/
lemma tapeCells_of_ended {stats : Stats} (h : m.Free) (hw : Walk m steps m₁)
    (hend : m₁.advance = .ended (.ok stats) m') :
    (stats.tapeCells : Int) = width (stretch m.tape.extent steps) := by
  rcases advance_eq_ended_iff.mp hend with ⟨-, hfinish⟩ | ⟨i, fault, -, -, hr⟩
  · unfold finish at hfinish
    split at hfinish
    · cases hfinish
    · cases hfinish
      rw [← (h.walk hw).2, width]
      exact m₁.tape.size_eq_span
  · cases hr

/-- A run that completes keeps within a limit of at least one cell exactly if it does not count more
cells than that in the end. -/
lemma within_iff_of_completed {stats : Stats} (h : m.Free) (hf : m.finished = false)
    (hr : m.RunsTo (.ok stats) m') (hpos : 1 ≤ n) :
    (∀ steps m₁, Walk m steps m₁ → width (stretch m.tape.extent steps) ≤ max 1 n) ↔
      stats.tapeCells ≤ n := by
  obtain ⟨steps, m₁, hw, hend⟩ := (runsTo_iff_walk hf).mp hr
  have hcells := h.tapeCells_of_ended hw hend
  constructor
  · intro hn
    have hle := hn steps m₁ hw
    omega
  · intro hle steps' m₂ hw'
    obtain ⟨rest, rfl, -⟩ := hw'.exists_append hw (hw.length_le_of_ended hend hw')
    have hmono := width_le_width_stretch (stretch m.tape.extent steps') rest
    simp only [stretch, List.foldl_append] at hmono hcells ⊢
    omega

end Free

end Machine

/-! ## The limit of a program -/

open Machine in
/-- What a limit does to the run of a machine, where `machine limit` is the machine at the start of
a program with this limit. -/
structure CutShort (machine : Option Nat → Machine) : Prop where
  /-- As long as the span keeps within the limit, each step leads to the same state. -/
  same_steps : ∀ (n : Nat) steps m, Walk (machine none) steps m → span steps ≤ max 1 n →
    Walk (machine (some n)) steps (m.withLimit (some n))
  /-- There are no other steps under the limit. -/
  no_other_steps : ∀ (n : Nat) steps m', Walk (machine (some n)) steps m' →
    ∃ m, Walk (machine none) steps m ∧ m' = m.withLimit (some n) ∧ span steps ≤ max 1 n
  /-- The first step with which the span would exceed the limit is a move. It is refused, with the
  address that it leads to, and with this the run ends. -/
  refused : ∀ (n : Nat) steps report m m₁, Walk (machine none) steps m →
    m.next = (.ok report, m₁) → span steps ≤ max 1 n → max 1 n < span (steps ++ [report]) →
    moves report.instruction ∧
      (machine (some n)).RunsTo (.error (.outOfCells ⟨report.dp, n⟩))
        ({ m with dp := report.dp }.withLimit (some n))
  /-- If there is no such step the run is the same. -/
  same_runs : ∀ n : Nat, (∀ steps m, Walk (machine none) steps m → span steps ≤ max 1 n) →
    (∀ r m', (machine (some n)).RunsTo r m' ↔
      ∃ m, (machine none).RunsTo r m ∧ m' = m.withLimit (some n)) ∧
    ((machine (some n)).Diverges ↔ (machine none).Diverges)
  /-- A program that completes without a limit does so under a limit exactly if the limit allows for
  the cells that it takes, and then with the same result. -/
  completes_iff : ∀ n : Nat, 1 ≤ n → ∀ stats m, (machine none).RunsTo (.ok stats) m →
    ((∃ stats' m', (machine (some n)).RunsTo (.ok stats') m') ↔ stats.tapeCells ≤ n) ∧
    (stats.tapeCells ≤ n → (machine (some n)).RunsTo (.ok stats) (m.withLimit (some n)))
  /-- An outcome that is not for want of cells is kept by every greater limit. -/
  monotone : ∀ n n' : Nat, n ≤ n' →
    (∀ r m, (machine (some n)).RunsTo r m → (∀ refusal, r ≠ .error (.outOfCells refusal)) →
      (machine (some n')).RunsTo r (m.withLimit (some n'))) ∧
    ((machine (some n)).Diverges → (machine (some n')).Diverges)

open Machine in
/-- A run that keeps within the limit ends under the limit exactly if it ends without one. -/
lemma Machine.Free.diverges_withLimit_iff {m : Machine} {n : Nat} (h : m.Free)
    (hf : m.finished = false)
    (hn : ∀ steps m₁, Walk m steps m₁ → width (stretch m.tape.extent steps) ≤ max 1 n) :
    (m.withLimit (some n)).Diverges ↔ m.Diverges := by
  simp only [diverges_iff_not_runsTo, h.runsTo_withLimit_iff hf hn]
  constructor
  · intro hd r m₁ hr
    exact hd r _ ⟨m₁, hr, rfl⟩
  · rintro hd r _ ⟨m₁, hr, rfl⟩
    exact hd r m₁ hr

open Machine in
/-- **A limit cuts a run short at the exact place**, and does nothing else: at the first move with
which the span of the data pointer would exceed it. -/
theorem limit_cuts_run_short (program : Program) (config : Config) (reader : Reader)
    (writer : Writer) :
    CutShort fun tapeLimit => .start program { config with tapeLimit } reader writer := by
  set m := Machine.start program { config with tapeLimit := none } reader writer with hm
  have h : m.Free := ⟨⟨le_rfl, le_rfl⟩, rfl⟩
  have hf : m.finished = false := rfl
  have hstart : ∀ n : Nat, width m.tape.extent ≤ max 1 n := fun n => by
    simp only [hm, width, Machine.start, Tape.extent_blank]
    omega
  -- an outcome that is not for want of cells shows that the limit has not been exceeded
  have hkeeps : ∀ (n n' : Nat), n ≤ n' →
      (∀ refusal m', ¬ (m.withLimit (some n)).RunsTo (.error (.outOfCells refusal)) m') →
      ∀ k, k = n ∨ k = n' → ∀ steps m₁, Walk m steps m₁ →
        width (stretch m.tape.extent steps) ≤ max 1 k := by
    intro n n' hle hr k hk steps m₁ hw
    have hwithin := h.within_of_not_outOfCells hf (hstart n) hr hw
    omega
  refine ⟨fun n steps m' hw hn => h.walk_withLimit hw hn,
    fun n steps m' hw => h.exists_walk_of_withLimit (hstart n) hw,
    fun n steps report m' m₁ hw hs hn hlt => h.runsTo_of_beyond hf hw hs hn hlt,
    fun n hn => ⟨fun r m' => h.runsTo_withLimit_iff hf hn, h.diverges_withLimit_iff hf hn⟩,
    fun n hpos stats m' hr => ?_, fun n n' hle => ⟨fun r m' hr hne => ?_, fun hd => ?_⟩⟩
  · have hiff := h.within_iff_of_completed hf hr hpos
    have hsame : stats.tapeCells ≤ n →
        (m.withLimit (some n)).RunsTo (.ok stats) (m'.withLimit (some n)) := fun hle =>
      (h.runsTo_withLimit_iff hf (hiff.mpr hle)).mpr ⟨m', hr, rfl⟩
    refine ⟨⟨?_, fun hle => ⟨stats, _, hsame hle⟩⟩, hsame⟩
    rintro ⟨stats', m₁, hr'⟩
    refine hiff.mp fun steps m₂ hw => h.within_of_not_outOfCells hf (hstart n) ?_ hw
    intro refusal m₃ hr''
    cases (hr'.unique hr'').1
  · have hk := hkeeps n n' hle fun refusal m₁ hr' => hne refusal (hr.unique hr').1
    obtain ⟨m₁, hr₁, rfl⟩ := (h.runsTo_withLimit_iff hf (hk n (Or.inl rfl))).mp hr
    exact (h.runsTo_withLimit_iff hf (hk n' (Or.inr rfl))).mpr ⟨m₁, hr₁, rfl⟩
  · have hk := hkeeps n n' hle fun refusal m₁ => diverges_iff_not_runsTo.mp hd _ m₁
    exact (h.diverges_withLimit_iff hf (hk n' (Or.inr rfl))).mpr
      ((h.diverges_withLimit_iff hf (hk n (Or.inl rfl))).mp hd)

end TapeMachine

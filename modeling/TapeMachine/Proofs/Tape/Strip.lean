import Mathlib.Tactic
import TapeMachine.Proofs.Tape.Access

/-!
# The tape as one strip of cells

From outside a tape is a strip of cells that goes on in both directions, all of them zero at first,
of which a stretch around the cell `0` has been reached. That the cells are stored in two halves,
which grow on their own under a common limit, does not show.

## Main definitions

* `TapeMachine.TapeCall`, `TapeMachine.TapeAnswer` — the calls on a tape, and what they answer.
* `TapeMachine.Strip` — a strip of cells, and the stretch of it that has been reached.
* `TapeMachine.Strip.perform` — the calls on a strip.
* `TapeMachine.Tape.strip` — a tape as it is seen from outside.

## Main results

* `TapeMachine.Tape.refusal?_eq_strip` — the limit concerns the stretch that has been reached.
* `TapeMachine.Tape.perform_eq_strip` — a tape answers one call as its strip does.
* `TapeMachine.Tape.tape_refines_strip` — a tape answers any sequence of calls as a strip does.
-/

set_option autoImplicit false

namespace TapeMachine

/-- A call on a tape. -/
inductive TapeCall
  /-- Store every cell up to an address. -/
  | grow (address : Int)
  /-- Write the cell at an address. -/
  | write (address : Int) (value : UInt8)
  /-- Add to the cell at an address, modulo 256. -/
  | add (address : Int) (amount : UInt8)
  /-- Subtract from the cell at an address, modulo 256. -/
  | sub (address : Int) (amount : UInt8)
  /-- Read the cell at an address. -/
  | read (address : Int)
deriving DecidableEq, Repr

/-- What a call on a tape answers. -/
inductive TapeAnswer
  /-- The call has been carried out. -/
  | done
  /-- The value of the cell, which a sum or a difference has been put into before. -/
  | cell (value : UInt8)
  /-- The limit forbids the call. -/
  | refused (refusal : OutOfCells)
deriving DecidableEq, Repr

/-- The answers to a sequence of calls, and the state after it. A call that is refused does not keep
the others from being made. -/
def performAll {σ : Type} (perform : σ → TapeCall → TapeAnswer × σ) :
    List TapeCall → σ → List TapeAnswer × σ
  | [], s => ([], s)
  | call :: calls, s =>
    let first := perform s call
    let rest := performAll perform calls first.2
    (first.1 :: rest.1, rest.2)

/-! ## Strips -/

/-- A strip of cells that goes on in both directions. -/
structure Strip where
  /-- The least address that was reached. -/
  least : Int
  /-- The greatest address that was reached. -/
  greatest : Int
  /-- The cell at each address. -/
  cells : Int → UInt8

namespace Strip

/-- A strip at first: all cells are zero, and only the cell `0` was reached. -/
def blank : Strip := ⟨0, 0, fun _ => 0⟩

/-- Why an address may not be reached. It may be if it was reached before, or if there is no limit,
or if the stretch that is reached then has no more cells than the limit says. -/
def refusal? (limit : Option Nat) (s : Strip) (address : Int) : Option OutOfCells :=
  match limit with
  | none => none
  | some n =>
    if (s.least ≤ address ∧ address ≤ s.greatest) ∨
        max s.greatest address - min s.least address + 1 ≤ n then
      none
    else
      some ⟨address, n⟩

/-- Reaches an address. -/
def reach (s : Strip) (address : Int) : Strip :=
  { s with least := min s.least address, greatest := max s.greatest address }

/-- Puts a value into one cell. -/
def set (s : Strip) (address : Int) (value : UInt8) : Strip :=
  { s with cells := Function.update s.cells address value }

/-- Reaches an address and goes on, or stays as it is if that is refused. -/
def visit (limit : Option Nat) (s : Strip) (address : Int) (next : Strip → TapeAnswer × Strip) :
    TapeAnswer × Strip :=
  match s.refusal? limit address with
  | some refusal => (.refused refusal, s)
  | none => next (s.reach address)

/-- What a call on a strip answers, and the strip after it. -/
def perform (limit : Option Nat) (s : Strip) : TapeCall → TapeAnswer × Strip
  | .grow a => s.visit limit a fun s => (.done, s)
  | .write a value => s.visit limit a fun s => (.done, s.set a value)
  | .add a n => s.visit limit a fun s => (.cell (s.cells a + n), s.set a (s.cells a + n))
  | .sub a n => s.visit limit a fun s => (.cell (s.cells a - n), s.set a (s.cells a - n))
  | .read a => (.cell (s.cells a), s)

end Strip

namespace Tape

/-! ## One call -/

/-- The answer to a call that may be refused, and the tape after it. -/
def orRefused (t : Tape) (attempt : Except OutOfCells Tape) (answer : Tape → TapeAnswer) :
    TapeAnswer × Tape :=
  match attempt with
  | .error refusal => (.refused refusal, t)
  | .ok t => (answer t, t)

/-- What a call on a tape answers, and the tape after it. -/
def perform (t : Tape) : TapeCall → TapeAnswer × Tape
  | .grow a => t.orRefused (t.growTo a) fun _ => .done
  | .write a value => t.orRefused (t.write a value) fun _ => .done
  | .add a n => t.orRefused (t.update a (· + n)) fun t => .cell (t.read a)
  | .sub a n => t.orRefused (t.update a (· - n)) fun t => .cell (t.read a)
  | .read a => (.cell (t.read a), t)

/-- A tape as it is seen from outside. -/
def strip (t : Tape) : Strip := ⟨t.extent.1, t.extent.2, t.read⟩

variable (t : Tape) (a : Int)

/-- **The limit concerns the stretch that has been reached**, whichever half it lies in. -/
theorem refusal?_eq_strip : t.refusal? a = t.strip.refusal? t.limit a := by
  apply Option.ext
  intro refusal
  rw [refusal?_eq_some_iff]
  unfold Strip.refusal?
  cases t.limit with
  | none => simp
  | some n =>
    have hleast : t.strip.least = t.extent.1 := rfl
    have hgreatest : t.strip.greatest = t.extent.2 := rfl
    simp only [Option.some.injEq, exists_eq_left', hleast, hgreatest]
    split
    · simp only [reduceCtorEq, iff_false]
      omega
    · constructor
      · rintro ⟨-, -, rfl⟩
        rfl
      · intro h
        exact ⟨by omega, by omega, (Option.some.inj h).symm⟩

/-- Growth reaches an address. -/
lemma strip_extend : (t.extend a).strip = t.strip.reach a := by
  simp only [strip, Strip.reach, extent_extend, Strip.mk.injEq, true_and]
  funext b
  exact read_extend t a b

/-- The change of a stored cell is seen at its address only. -/
lemma strip_modify (f : UInt8 → UInt8) (h : t.shortfall a = 0) :
    (t.modify a f).strip = t.strip.set a (f (t.read a)) := by
  simp only [strip, Strip.set, extent_modify, Strip.mk.injEq, true_and]
  funext b
  rw [read_modify f h, Function.update_apply]

variable {t a} in
/-- A call that changes the tape is refused where the strip refuses its address, and leads where the
call on the strip leads else. -/
lemma orRefused_eq_visit {attempt : Except OutOfCells Tape} {t' : Tape}
    {answer : Tape → TapeAnswer} {next : Strip → TapeAnswer × Strip}
    (hattempt : attempt = match t.refusal? a with
      | some refusal => .error refusal
      | none => .ok t')
    (hnext : (answer t', t'.strip) = next (t.strip.reach a)) (hlimit : t'.limit = t.limit) :
    ((t.orRefused attempt answer).1, (t.orRefused attempt answer).2.strip) =
        t.strip.visit t.limit a next ∧
      (t.orRefused attempt answer).2.limit = t.limit := by
  subst hattempt
  unfold Strip.visit
  rw [← refusal?_eq_strip]
  cases t.refusal? a with
  | some refusal => exact ⟨rfl, rfl⟩
  | none => exact ⟨hnext, hlimit⟩

/-- A change of the cell at an address, which is stored first, is seen as the same change of the
strip, and so is the value of the cell afterwards. -/
lemma strip_update (f : UInt8 → UInt8) :
    ((t.extend a).modify a f).read a = f (t.strip.cells a) ∧
      ((t.extend a).modify a f).strip = (t.strip.reach a).set a (f (t.strip.cells a)) := by
  have hstored := shortfall_extend_self t a
  rw [strip_modify _ _ f hstored, strip_extend, read_modify f hstored, if_pos rfl, read_extend]
  exact ⟨rfl, rfl⟩

/-- A change is refused where growth is. -/
lemma update_eq (f : UInt8 → UInt8) :
    t.update a f = match t.refusal? a with
      | some refusal => .error refusal
      | none => .ok ((t.extend a).modify a f) :=
  rfl

/-- **A tape answers one call as its strip does**, and keeps its limit. -/
theorem perform_eq_strip (call : TapeCall) :
    ((t.perform call).1, (t.perform call).2.strip) = t.strip.perform t.limit call ∧
      (t.perform call).2.limit = t.limit := by
  have hlimit : ∀ (a : Int) (f : UInt8 → UInt8),
      ((t.extend a).modify a f).limit = t.limit := by simp
  cases call with
  | grow a =>
    exact orRefused_eq_visit rfl (congrArg _ (strip_extend t a)) (limit_extend t a)
  | write a value =>
    obtain ⟨-, hstrip⟩ := strip_update t a fun _ => value
    simp only [perform, write, Strip.perform]
    refine orRefused_eq_visit (update_eq t a fun _ => value) ?_ (hlimit a _)
    rw [hstrip]
  | add a n =>
    obtain ⟨hread, hstrip⟩ := strip_update t a (· + n)
    simp only [perform, Strip.perform]
    refine orRefused_eq_visit (update_eq t a (· + n)) ?_ (hlimit a _)
    rw [hread, hstrip]
    rfl
  | sub a n =>
    obtain ⟨hread, hstrip⟩ := strip_update t a (· - n)
    simp only [perform, Strip.perform]
    refine orRefused_eq_visit (update_eq t a (· - n)) ?_ (hlimit a _)
    rw [hread, hstrip]
    rfl
  | read a => exact ⟨rfl, rfl⟩

/-! ## Sequences of calls -/

/-- A tape answers a sequence of calls as its strip does. -/
lemma performAll_eq_strip (calls : List TapeCall) :
    ((performAll perform calls t).1, (performAll perform calls t).2.strip) =
      performAll (Strip.perform t.limit) calls t.strip := by
  induction calls generalizing t with
  | nil => rfl
  | cons call calls ih =>
    obtain ⟨hcall, hlimit⟩ := t.perform_eq_strip call
    have hrest := ih (t.perform call).2
    rw [hlimit] at hrest
    simp only [performAll, ← hcall, ← hrest]

variable {t} in
/-- A call that is refused leaves the tape as it was. -/
lemma perform_of_refused {call : TapeCall} {refusal : OutOfCells}
    (h : (t.perform call).1 = .refused refusal) : (t.perform call).2 = t := by
  have hrefused : ∀ {attempt : Except OutOfCells Tape} {answer : Tape → TapeAnswer},
      (∀ t', answer t' ≠ .refused refusal) → (t.orRefused attempt answer).1 = .refused refusal →
        (t.orRefused attempt answer).2 = t := by
    intro attempt answer hne h
    cases attempt with
    | error refusal => rfl
    | ok t' => exact absurd h (hne t')
  cases call with
  | read a => rfl
  | _ => exact hrefused (by simp) h

variable {t a} in
/-- A call that changes the cell at one address changes no cell at another. -/
lemma read_of_update {f : UInt8 → UInt8} {t' : Tape} (h : t.update a f = .ok t') {b : Int}
    (hne : b ≠ a) : t'.read b = t.read b := by
  unfold update at h
  split at h
  · cases h
  · cases h
    rw [read_modify f (shortfall_extend_self t a), if_neg hne, read_extend]

/-- **A tape refines one strip of cells.** Whatever the limit and whatever calls are made, a tape
answers them as a strip does, and is seen as this strip in the end. A call that is refused, and one
that reads, leave the tape exactly as it was. And no two addresses share a cell: what is changed at
one of them is not seen at the other. -/
theorem tape_refines_strip (limit : Option Nat) (calls : List TapeCall) :
    let t := (performAll perform calls (blank limit)).2
    ((performAll perform calls (blank limit)).1, t.strip) =
      performAll (Strip.perform limit) calls Strip.blank ∧
    (∀ call refusal, (t.perform call).1 = .refused refusal → (t.perform call).2 = t) ∧
    (∀ a, (t.perform (.read a)).2 = t) ∧
    (∀ a b, b ≠ a → ∀ f t', t.update a f = .ok t' → t'.read b = t.read b) := by
  intro t
  have hblank : (blank limit).strip = Strip.blank := by
    simp only [strip, Strip.blank, extent_blank, Strip.mk.injEq, true_and]
    funext a
    exact read_blank a limit
  refine ⟨?_, fun call refusal => perform_of_refused, fun a => rfl,
    fun a b hne f t' h => read_of_update h hne⟩
  rw [← hblank]
  exact performAll_eq_strip (blank limit) calls

/-- A tape of at most two cells refuses the address `1` once `-1` is stored, and stays as it is. -/
theorem tape_refines_strip_of_two_cells :
    let t := (performAll perform [.add (-1) 255, .grow 0] (blank (some 2))).2
    (t.perform (.write 1 7)).1 = .refused ⟨1, 2⟩ ∧ (t.perform (.write 1 7)).2 = t := by
  intro t
  have hrefused : (t.perform (.write 1 7)).1 = .refused ⟨1, 2⟩ := by decide
  exact ⟨hrefused,
    (tape_refines_strip (some 2) [.add (-1) 255, .grow 0]).2.1 _ _ hrefused⟩

end Tape

end TapeMachine

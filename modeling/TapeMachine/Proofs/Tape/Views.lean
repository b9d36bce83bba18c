import Mathlib.Tactic
import TapeMachine.Proofs.Tape.Growth
import TapeMachine.Proofs.Tape.Strip

/-!
# The views of a tape

A tape can be looked at in several ways: by the number of its cells, by its extent, by the list of
its cells, and through a window around an address. All of them show the same cells, wherever the
seam between the halves lies, and none of them changes the tape.

## Main definitions

* `TapeMachine.TapeView`, `TapeMachine.TapeSight` — the ways to look at a tape, and what is seen.
* `TapeMachine.Tape.useAll` — calls on a tape and looks at it, in any order.
* `TapeMachine.Tape.Consistent` — the views of a tape agree with one another and with its cells.

## Main results

* `TapeMachine.Tape.window_eq_map`, `TapeMachine.Tape.window_eq_nil` — the cells in a window.
* `TapeMachine.Tape.useAll_eq_performAll` — looks at a tape make no difference.
* `TapeMachine.Tape.views_agree` — the views of every tape that can be reached agree.
-/

set_option autoImplicit false

namespace TapeMachine

/-- A way to look at a tape. -/
inductive TapeView
  /-- By the number of its cells. -/
  | size
  /-- By its extent. -/
  | extent
  /-- By the list of its cells. -/
  | cells
  /-- Through a window around an address. -/
  | window (center : Int) (radius : Nat)
deriving DecidableEq, Repr

/-- What is seen of a tape. -/
inductive TapeSight
  /-- The number of its cells. -/
  | size (count : Nat)
  /-- Its least and its greatest address. -/
  | extent (least greatest : Int)
  /-- Its cells. -/
  | cells (values : List UInt8)
  /-- Some addresses, with the cells at them. -/
  | window (cells : List (Int × UInt8))
deriving DecidableEq, Repr

namespace Tape

/-- What a look at a tape shows, and the tape after it. -/
def look (t : Tape) : TapeView → TapeSight × Tape
  | .size => (.size t.size, t)
  | .extent => (.extent t.extent.1 t.extent.2, t)
  | .cells => (.cells t.cells, t)
  | .window center radius => (.window (t.window center radius), t)

/-- What calls on a tape answer and looks at it show, and the tape after them. A call that is
refused does not keep the others from being made. -/
def useAll : List (TapeCall ⊕ TapeView) → Tape → List (TapeAnswer ⊕ TapeSight) × Tape
  | [], t => ([], t)
  | .inl call :: uses, t =>
    let first := t.perform call
    let rest := useAll uses first.2
    (.inl first.1 :: rest.1, rest.2)
  | .inr view :: uses, t =>
    let first := t.look view
    let rest := useAll uses first.2
    (.inr first.1 :: rest.1, rest.2)

variable (t : Tape)

/-! ## The list of the cells -/

@[simp]
lemma length_cells : t.cells.length = t.size := by
  simp [cells_eq_map]

/-- The list of the cells holds the cells of the extent one after another. -/
lemma getElem_cells (i : Nat) (h : i < t.cells.length) :
    t.cells[i] = t.read (t.extent.1 + i) := by
  simp [cells_eq_map]

/-! ## Windows -/

variable (center : Int) {radius : Nat}

/-- A radius that fits into a signed word is taken as it is. -/
lemma signedRadius_of_lt (h : radius < 2 ^ 63) : signedRadius radius = radius := by
  unfold signedRadius UInt64.size
  apply Int.bmod_eq_of_le <;> omega

/-- A radius that does not fit becomes negative. -/
lemma signedRadius_of_le (h : 2 ^ 63 ≤ radius) (hlt : radius < 2 ^ 64) :
    signedRadius radius = radius - 2 ^ 64 := by
  unfold signedRadius UInt64.size
  rw [← Int.sub_bmod_right]
  apply Int.bmod_eq_of_le <;> omega

/-- **The cells in a window** are those from its one end to the other. -/
theorem window_eq_map (h : radius < 2 ^ 63) :
    t.window center radius = (List.range (2 * radius + 1)).map fun i : Nat =>
      (center - radius + i, t.read (center - radius + i)) := by
  have hcount : (2 * (radius : Int) + 1).toNat = 2 * radius + 1 := by omega
  simp only [window, signedRadius_of_lt h, hcount]

/-- **A window is empty** if its radius does not fit into a signed word. -/
theorem window_eq_nil (h : 2 ^ 63 ≤ radius) (hlt : radius < 2 ^ 64) :
    t.window center radius = [] := by
  have hcount : (2 * signedRadius radius + 1).toNat = 0 := by
    rw [signedRadius_of_le h hlt]
    omega
  simp only [window, hcount, List.range_zero, List.map_nil]

/-- The addresses in a window are those whose distance from its center is at most the radius. -/
lemma mem_window_iff (h : radius < 2 ^ 63) {a : Int} {value : UInt8} :
    (a, value) ∈ t.window center radius ↔
      center - radius ≤ a ∧ a ≤ center + radius ∧ value = t.read a := by
  rw [window_eq_map t center h]
  simp only [List.mem_map, List.mem_range, Prod.mk.injEq]
  constructor
  · rintro ⟨i, hi, rfl, rfl⟩
    exact ⟨by omega, by omega, rfl⟩
  · rintro ⟨hleast, hgreatest, rfl⟩
    have hi : center - radius + ((a - (center - radius)).toNat : Int) = a := by omega
    refine ⟨(a - (center - radius)).toNat, by omega, hi, ?_⟩
    rw [hi]

/-- The addresses in a window ascend. -/
lemma pairwise_window (h : radius < 2 ^ 63) :
    ((t.window center radius).map Prod.fst).Pairwise (· < ·) := by
  rw [window_eq_map t center h, List.map_map, List.pairwise_map]
  apply List.pairwise_lt_range.imp
  intro i j hij
  simp only [Function.comp_apply]
  omega

/-! ## Calls and looks -/

/-- **Looks at a tape make no difference**: the calls answer what they would answer without them,
and lead to the same tape. -/
theorem useAll_eq_performAll (uses : List (TapeCall ⊕ TapeView)) :
    ((useAll uses t).1.filterMap Sum.getLeft?, (useAll uses t).2) =
      performAll perform (uses.filterMap Sum.getLeft?) t := by
  induction uses generalizing t with
  | nil => rfl
  | cons use uses ih =>
    cases use with
    | inl call =>
      have hrest := ih (t.perform call).2
      simp only [useAll, List.filterMap_cons, Sum.getLeft?_inl, performAll, ← hrest]
    | inr view =>
      have hlook : (t.look view).2 = t := by
        cases view <;> rfl
      simp only [useAll, hlook, List.filterMap_cons, Sum.getLeft?_inr]
      exact ih t

/-- The views of a tape agree with one another and with its cells. -/
structure Consistent (t : Tape) : Prop where
  /-- The extent holds the address `0`. -/
  zero_mem_extent : t.extent.1 ≤ 0 ∧ 0 ≤ t.extent.2
  /-- The number of the cells is the span of the extent. -/
  size_eq : (t.size : Int) = t.extent.2 - t.extent.1 + 1
  /-- It is the number of the cells in the list. -/
  length_cells : t.cells.length = t.size
  /-- The list holds the cells of the extent one after another. -/
  getElem_cells : ∀ (i : Nat) (h : i < t.cells.length), t.cells[i] = t.read (t.extent.1 + i)
  /-- A window holds as many addresses as its radius says. -/
  length_window : ∀ (center : Int) (radius : Nat), radius < 2 ^ 63 →
    (t.window center radius).length = 2 * radius + 1
  /-- These are all addresses from its one end to the other, with the cells at them. -/
  mem_window_iff : ∀ (center : Int) (radius : Nat), radius < 2 ^ 63 → ∀ (a : Int) (value : UInt8),
    (a, value) ∈ t.window center radius ↔
      center - radius ≤ a ∧ a ≤ center + radius ∧ value = t.read a
  /-- They ascend. -/
  pairwise_window : ∀ (center : Int) (radius : Nat), radius < 2 ^ 63 →
    ((t.window center radius).map Prod.fst).Pairwise (· < ·)
  /-- An address outside the extent is shown with a zero. -/
  read_of_outside : ∀ a : Int, a < t.extent.1 ∨ t.extent.2 < a → t.read a = 0
  /-- A window is empty if its radius does not fit into a signed word. -/
  window_eq_nil : ∀ (center : Int) (radius : Nat), 2 ^ 63 ≤ radius → radius < 2 ^ 64 →
    t.window center radius = []

/-- The views of every tape agree. -/
lemma consistent : t.Consistent where
  zero_mem_extent := t.zero_mem_extent
  size_eq := t.size_eq_span
  length_cells := t.length_cells
  getElem_cells := t.getElem_cells
  length_window center radius h := by simp [t.window_eq_map center h]
  mem_window_iff center _ h _ _ := t.mem_window_iff center h
  pairwise_window center _ h := t.pairwise_window center h
  read_of_outside _ h := read_of_outside h
  window_eq_nil center _ h hlt := t.window_eq_nil center h hlt

/-- A window across the seam between the halves, of a tape of at most three cells that has refused
the address `2`. -/
example :
    (useAll [.inl (.write (-1) 1), .inl (.add 1 2), .inr .cells, .inl (.grow 2),
        .inr (.window 0 2)] (blank (some 3))).1 =
      [.inl .done, .inl (.cell 2), .inr (.cells [1, 0, 2]), .inl (.refused ⟨2, 3⟩),
        .inr (.window [(-2, 0), (-1, 1), (0, 0), (1, 2), (2, 0)])] := by
  decide

end Tape

end TapeMachine

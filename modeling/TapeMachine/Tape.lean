/-!
# The tape

The tape is a row of byte cells that is unbounded in both directions. Cells hold zero until they
are written. Storage grows to the cells that have been visited, and a limit may bound its total
size.

Cells at addresses `0, 1, 2, …` are stored in one array and cells at `-1, -2, -3, …` in another,
so that growth in either direction appends. The two constructors of `Int` are just this split:
`Int.ofNat n` is cell `n` of the right half and `Int.negSucc n` is cell `n` of the left half.

## Main definitions

* `TapeMachine.Tape` — the two halves and the limit.
* `TapeMachine.Tape.read` — the cell at an address.
* `TapeMachine.Tape.growTo` — storage for an address, or the refusal by the limit.
* `TapeMachine.Tape.write`, `TapeMachine.Tape.update` — growth followed by a change of the cell.
* `TapeMachine.Tape.extent`, `TapeMachine.Tape.cells`, `TapeMachine.Tape.window` — views of the
  tape.
-/

set_option autoImplicit false

namespace TapeMachine

/-- The tape would have to hold more cells than its limit to reach an address. -/
structure OutOfCells where
  /-- The address that was to be reached. -/
  address : Int
  /-- The number of cells that the tape may hold. -/
  limit : Nat
deriving DecidableEq, Repr

/-- The report of a tape that is full. -/
def OutOfCells.message (e : OutOfCells) : String :=
  s!"out of memory: address {e.address} exceeds the tape limit of {e.limit} cells"

/-- A tape of byte cells. -/
structure Tape where
  /-- The cells at `0, 1, 2, …` that are stored. -/
  right : Array UInt8
  /-- The cells at `-1, -2, -3, …` that are stored. -/
  left : Array UInt8
  /-- The number of cells that may be stored, if that is bounded. -/
  limit : Option Nat
  /-- Cell `0` is always stored, even if the limit is zero. -/
  origin_stored : 0 < right.size

namespace Tape

/-- A fresh tape: cell `0` alone, holding zero. -/
def blank (limit : Option Nat) : Tape where
  right := #[0]
  left := #[]
  limit
  origin_stored := by decide

/-- The number of stored cells. -/
def size (t : Tape) : Nat := t.right.size + t.left.size

/-- The cell at an address; cells that are not stored hold zero. -/
def read (t : Tape) : Int → UInt8
  | .ofNat n => t.right.getD n 0
  | .negSucc n => t.left.getD n 0

/-- How many cells have to be added to store an address. -/
def shortfall (t : Tape) : Int → Nat
  | .ofNat n => n + 1 - t.right.size
  | .negSucc n => n + 1 - t.left.size

/-- Why an address cannot be stored, if the limit forbids it. Addresses that are stored already
are never refused. -/
def refusal? (t : Tape) (address : Int) : Option OutOfCells :=
  match t.limit with
  | none => none
  | some limit =>
    if 0 < t.shortfall address ∧ limit < t.size + t.shortfall address then
      some ⟨address, limit⟩
    else
      none

/-- Adds zero cells up to an address, whatever the limit. -/
def extend (t : Tape) (address : Int) : Tape :=
  match address with
  | .ofNat n =>
    { t with
      right := t.right ++ Array.replicate (n + 1 - t.right.size) 0
      origin_stored := by
        have := t.origin_stored
        simp only [Array.size_append, Array.size_replicate]
        omega }
  | .negSucc n => { t with left := t.left ++ Array.replicate (n + 1 - t.left.size) 0 }

/-- Changes the cell at an address that is stored. -/
def modify (t : Tape) (address : Int) (f : UInt8 → UInt8) : Tape :=
  match address with
  | .ofNat n =>
    { t with
      right := t.right.modify n f
      origin_stored := by
        rw [Array.size_modify]
        exact t.origin_stored }
  | .negSucc n => { t with left := t.left.modify n f }

/-- Stores every cell up to an address. -/
def growTo (t : Tape) (address : Int) : Except OutOfCells Tape :=
  match t.refusal? address with
  | some refusal => .error refusal
  | none => .ok (t.extend address)

/-- Changes the cell at an address, which is stored first. -/
def update (t : Tape) (address : Int) (f : UInt8 → UInt8) : Except OutOfCells Tape :=
  match t.refusal? address with
  | some refusal => .error refusal
  | none => .ok ((t.extend address).modify address f)

/-- Writes the cell at an address, which is stored first. -/
def write (t : Tape) (address : Int) (value : UInt8) : Except OutOfCells Tape :=
  t.update address fun _ => value

/-! ## Views -/

/-- The least and the greatest stored address. -/
def extent (t : Tape) : Int × Int := (-(t.left.size : Int), (t.right.size : Int) - 1)

/-- The stored cells from the least address to the greatest. -/
def cells (t : Tape) : List UInt8 := t.left.toList.reverse ++ t.right.toList

/-- A radius as the signed 64-bit word with the same bits. A radius of `2 ^ 63` or more becomes
negative. -/
def signedRadius (radius : Nat) : Int := Int.bmod radius UInt64.size

/-- The addresses and cells within a radius around an address, in ascending order. The window of
a negative radius is empty. -/
def window (t : Tape) (center : Int) (radius : Nat) : List (Int × UInt8) :=
  let r := signedRadius radius
  (List.range (2 * r + 1).toNat).map fun (i : Nat) =>
    let address := center - r + i
    (address, t.read address)

end Tape

end TapeMachine

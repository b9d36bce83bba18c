/-!
# Ranges of characters

## Main definitions

* `TapeMachine.Text.within` — whether a character lies in a range of code points.
* `TapeMachine.Text.inRanges` — whether it lies in one of several ranges.
-/

set_option autoImplicit false

namespace TapeMachine.Text

/-- Whether the code point of a character lies in a range. -/
def within (low high : Nat) (c : Char) : Bool := low ≤ c.toNat && c.toNat ≤ high

/-- Whether the code point of a character lies in one of several ranges. -/
def inRanges (ranges : List (Nat × Nat)) (c : Char) : Bool :=
  ranges.any fun (low, high) => within low high c

end TapeMachine.Text

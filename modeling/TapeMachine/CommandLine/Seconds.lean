/-!
# Measured times

## Main definitions

* `TapeMachine.seconds` — a time in seconds with six places.
-/

set_option autoImplicit false

namespace TapeMachine

/-- A number of microseconds as seconds with six places. -/
def seconds (micros : Nat) : String :=
  let places := toString (micros % 1000000)
  s!"{micros / 1000000}." ++ "".pushn '0' (6 - places.length) ++ places

end TapeMachine

import TapeMachine.Instruction

/-!
# Run-length folding

Adjacent additions, and adjacent subtractions, can be carried out by one instruction as long as
their sum fits into a byte.

## Main definitions

* `TapeMachine.Instruction.merge?` — two adjacent instructions as one, where that is possible.
* `TapeMachine.foldRuns` — a list of instructions with its runs merged from the left.
-/

set_option autoImplicit false

namespace TapeMachine

/-- Two adjacent instructions as one: equal kinds of counted instruction merge when the sum of
their counts fits into a byte. -/
def Instruction.merge? : Instruction → Instruction → Option Instruction
  | .incr m, .incr n => if m.toNat + n.toNat < 256 then some (.incr (m + n)) else none
  | .decr m, .decr n => if m.toNat + n.toNat < 256 then some (.decr (m + n)) else none
  | _, _ => none

/-- Appends an instruction to a folded list, which is held in reverse: it is merged into the
last one if possible. -/
def foldOnto : List Instruction → Instruction → List Instruction
  | [], next => [next]
  | last :: done, next =>
    match last.merge? next with
    | some merged => merged :: done
    | none => next :: last :: done

/-- A list of instructions with its runs of additions and of subtractions merged. -/
def foldRuns (instructions : List Instruction) : List Instruction :=
  (instructions.foldl foldOnto []).reverse

end TapeMachine

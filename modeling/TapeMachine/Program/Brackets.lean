import TapeMachine.Instruction

/-!
# Bracket matching

Before a program runs, every `[` is paired with the `]` that closes it. The pairs are found in
one scan with a stack of the brackets that are still open.

## Main definitions

* `TapeMachine.BracketError` — the two ways in which brackets can fail to match.
* `TapeMachine.JumpTable` — for each position the position of its partner.
* `TapeMachine.JumpTable.resolve` — the jump table of a list of instructions.
* `TapeMachine.JumpTable.partner?`, `TapeMachine.JumpTable.pairs` — the partner of a position,
  and the number of matched pairs.
-/

set_option autoImplicit false

namespace TapeMachine

/-- Why the brackets of a program do not match. Positions count instructions. -/
inductive BracketError
  /-- The earliest `[` that is never closed. -/
  | unmatchedOpen (position : Nat)
  /-- The first `]` that closes nothing. -/
  | unmatchedClose (position : Nat)
deriving DecidableEq, Repr

/-- The report of a bracket error. -/
def BracketError.message : BracketError → String
  | unmatchedOpen position => s!"unmatched '[' at position {position}"
  | unmatchedClose position => s!"unmatched ']' at position {position}"

/-- The matching of the brackets of a program: each position is mapped to its partner, and a
position that holds no bracket to itself. -/
structure JumpTable where
  /-- The target of each position. -/
  targets : Array Nat
deriving DecidableEq, Repr

namespace JumpTable

/-- The scan behind `resolve`, from `position` on: `pending` holds the open brackets, innermost
first, and `targets` the pairs found so far. -/
def resolveFrom (position : Nat) (pending : List Nat) (targets : Array Nat) :
    List Instruction → Except BracketError (Array Nat)
  | [] =>
    match pending.getLast? with
    | some earliest => .error (.unmatchedOpen earliest)
    | none => .ok targets
  | .loopOpen :: rest => resolveFrom (position + 1) (position :: pending) targets rest
  | .loopClose :: rest =>
    match pending with
    | [] => .error (.unmatchedClose position)
    | opening :: pending =>
      resolveFrom (position + 1) pending
        ((targets.setIfInBounds opening position).setIfInBounds position opening) rest
  | _ :: rest => resolveFrom (position + 1) pending targets rest

/-- The jump table of a list of instructions, or why there is none. -/
def resolve (instructions : List Instruction) : Except BracketError JumpTable :=
  (resolveFrom 0 [] (Array.range instructions.length) instructions).map JumpTable.mk

/-- Where a jump from `position` goes; positions outside the table stay where they are. -/
def target (table : JumpTable) (position : Nat) : Nat :=
  table.targets.getD position position

/-- The partner of the bracket at `position`; there is none where no bracket stands. -/
def partner? (table : JumpTable) (position : Nat) : Option Nat :=
  if table.target position = position then none else some (table.target position)

/-- The number of matched pairs: the positions whose partner lies further on. -/
def pairs (table : JumpTable) : Nat :=
  (List.range table.targets.size).countP fun position => position < table.target position

end JumpTable

end TapeMachine

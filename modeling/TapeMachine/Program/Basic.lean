import TapeMachine.Program.Brackets
import TapeMachine.Program.Fold

/-!
# Programs

A program is a sequence of instructions whose brackets match, together with the matching.

## Main definitions

* `TapeMachine.Program` — instructions, their jump table, and the number of comment bytes that
  were skipped.
* `TapeMachine.Program.ofInstructions?` — the program of a list of instructions.
* `TapeMachine.Program.load` — the program of a text, folded or not.
* `TapeMachine.Program.readsInput` — whether a program can read input at all.

## Main results

* `TapeMachine.Program.ofInstructions?_eq_ok_iff` — a list of instructions has a program
  exactly when it has a jump table, and the program holds just that list and that table.
-/

set_option autoImplicit false

namespace TapeMachine

/-- A program that is ready to run. -/
structure Program where
  /-- The instructions, in order. -/
  instructions : Array Instruction
  /-- The partner of each bracket. -/
  jumps : JumpTable
  /-- The number of comment bytes of the program text. -/
  discarded : Nat
  /-- The jump table is that of the instructions. -/
  resolved : JumpTable.resolve instructions.toList = .ok jumps

namespace Program

/-- The number of instructions. -/
def size (p : Program) : Nat := p.instructions.size

/-- Whether the program holds an instruction that reads input. -/
def readsInput (p : Program) : Bool := p.instructions.contains .input

/-- The program of a list of instructions, if its brackets match. -/
def ofInstructions? (instructions : List Instruction) (discarded : Nat) :
    Except BracketError Program :=
  match h : JumpTable.resolve instructions with
  | .ok jumps => .ok ⟨instructions.toArray, jumps, discarded, h⟩
  | .error e => .error e

/-- A list of instructions has a program exactly when it has a jump table, and the program
holds just that list and that table. -/
theorem ofInstructions?_eq_ok_iff {instructions : List Instruction} {discarded : Nat}
    {p : Program} :
    ofInstructions? instructions discarded = .ok p ↔
      JumpTable.resolve instructions = .ok p.jumps ∧ p.instructions.toList = instructions ∧
        p.discarded = discarded := by
  unfold ofInstructions?
  split
  · rename_i jumps h
    constructor
    · intro hp
      cases hp
      exact ⟨h, rfl, rfl⟩
    · rintro ⟨hj, hi, hd⟩
      obtain ⟨is, js, d, hr⟩ := p
      simp only at hj hi hd
      subst hd
      subst hi
      rw [h] at hj
      cases hj
      simp
  · rename_i e h
    simp [h]

/-- Loads a program text. Brackets are matched in the instructions as written, so that the
positions of errors are those of the text whether or not the runs are folded afterwards. -/
def load (source : List UInt8) (fold : Bool) : Except BracketError Program := do
  let instructions := (symbols source).map Instruction.ofSymbol
  let program ← ofInstructions? instructions (commentCount source)
  if fold then ofInstructions? (foldRuns instructions) (commentCount source) else pure program

end Program

end TapeMachine

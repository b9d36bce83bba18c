import TapeMachine.Symbol

/-!
# Instructions

An instruction is a symbol, except that a run of `+` or of `-` may be one instruction that
carries its length.

## Main definitions

* `TapeMachine.Instruction` — the instructions of the machine.
* `TapeMachine.Instruction.ofSymbol` — the instruction of a single symbol.
* `TapeMachine.Instruction.symbol`, `TapeMachine.Instruction.count` — the symbol of an
  instruction, and how many of it the instruction stands for.
* `TapeMachine.Instruction.source`, `TapeMachine.Instruction.text` — an instruction as program
  text, in bytes and in characters.
-/

set_option autoImplicit false

namespace TapeMachine

/-- The instructions of the machine. -/
inductive Instruction
  /-- Move one cell to the right. -/
  | right
  /-- Move one cell to the left. -/
  | left
  /-- Add `n` to the current cell, modulo 256. -/
  | incr (n : UInt8)
  /-- Subtract `n` from the current cell, modulo 256. -/
  | decr (n : UInt8)
  /-- Write the current cell. -/
  | output
  /-- Read a byte into the current cell. -/
  | input
  /-- Jump to the matching `loopClose` if the current cell is zero. -/
  | loopOpen
  /-- Jump to the matching `loopOpen` unless the current cell is zero. -/
  | loopClose
deriving DecidableEq, Repr

namespace Instruction

/-- The instruction that a single symbol stands for. -/
def ofSymbol : Symbol → Instruction
  | .right => right
  | .left => left
  | .incr => incr 1
  | .decr => decr 1
  | .output => output
  | .input => input
  | .loopOpen => loopOpen
  | .loopClose => loopClose

/-- The symbol of an instruction. -/
def symbol : Instruction → Symbol
  | right => .right
  | left => .left
  | incr _ => .incr
  | decr _ => .decr
  | output => .output
  | input => .input
  | loopOpen => .loopOpen
  | loopClose => .loopClose

/-- How many symbols an instruction stands for. -/
def count : Instruction → Nat
  | incr n | decr n => n.toNat
  | _ => 1

/-- An instruction as program text: its symbol, `count` times. -/
def source (i : Instruction) : List UInt8 :=
  List.replicate i.count i.symbol.byte

/-- The characters of `source`. -/
def text (i : Instruction) : String :=
  String.ofList (List.replicate i.count i.symbol.char)

@[simp]
theorem symbol_ofSymbol (s : Symbol) : (ofSymbol s).symbol = s := by
  cases s <;> rfl

@[simp]
theorem count_ofSymbol (s : Symbol) : (ofSymbol s).count = 1 := by
  cases s <;> rfl

@[simp]
theorem source_ofSymbol (s : Symbol) : (ofSymbol s).source = [s.byte] := by
  cases s <;> rfl

@[simp]
theorem length_source (i : Instruction) : i.source.length = i.count := by
  simp [source]

end Instruction

end TapeMachine

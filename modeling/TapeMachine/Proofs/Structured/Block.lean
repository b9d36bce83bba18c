import Mathlib.Tactic
import TapeMachine.Machine.Streams
import TapeMachine.Proofs.Program.Depth
import TapeMachine.Tape

/-!
# Structured programs

Brackets that balance make a program text a nested program: a sequence of basic instructions and of
loops, which hold nested programs themselves. A nested program is evaluated along its structure.
Nothing here knows of positions, of jumps or of how the tape is stored.

## Main definitions

* `TapeMachine.Structured.Block` — nested programs.
* `TapeMachine.Structured.Block.ofSymbols?` — the nested program of a list of symbols.
* `TapeMachine.Structured.Block.eval` — the evaluation of a nested program.

## Main results

* `TapeMachine.Structured.Block.ofSymbols?_eq_some_iff` — a nested program is read from its symbols
  and from no others.
* `TapeMachine.Structured.Block.exists_ofSymbols?_iff` — symbols make a nested program exactly when
  their brackets balance.
* `TapeMachine.Structured.Block.eval_mono` — an evaluation has one outcome.
-/

set_option autoImplicit false

namespace TapeMachine

namespace Structured

/-! ## Nested programs -/

/-- The instructions that are no brackets. -/
inductive Basic
  /-- Move one cell to the right. -/
  | right
  /-- Move one cell to the left. -/
  | left
  /-- Add one to the current cell. -/
  | incr
  /-- Subtract one from the current cell. -/
  | decr
  /-- Write the current cell. -/
  | output
  /-- Read a byte into the current cell. -/
  | input
deriving DecidableEq, Repr

/-- The symbol of a basic instruction. -/
def Basic.symbol : Basic → Symbol
  | right => .right
  | left => .left
  | incr => .incr
  | decr => .decr
  | output => .output
  | input => .input

/-- A nested program. -/
inductive Block
  /-- Nothing is left to do. -/
  | done
  /-- A basic instruction, and what follows it. -/
  | basic (instruction : Basic) (rest : Block)
  /-- A loop over a nested program, and what follows it. -/
  | loop (body rest : Block)
deriving DecidableEq, Repr

namespace Block

/-- The symbols of a nested program. -/
def symbols : Block → List Symbol
  | done => []
  | basic instruction rest => instruction.symbol :: rest.symbols
  | loop body rest => .loopOpen :: (body.symbols ++ .loopClose :: rest.symbols)

/-- Puts a symbol in front of a block that is being read from its end. The blocks around it, from
the inside to the outside, are those that go on behind the loops that the block stands in. -/
def attach : Symbol → Block × List Block → Option (Block × List Block)
  | .right, (rest, around) => some (basic .right rest, around)
  | .left, (rest, around) => some (basic .left rest, around)
  | .incr, (rest, around) => some (basic .incr rest, around)
  | .decr, (rest, around) => some (basic .decr rest, around)
  | .output, (rest, around) => some (basic .output rest, around)
  | .input, (rest, around) => some (basic .input rest, around)
  | .loopClose, (rest, around) => some (done, rest :: around)
  | .loopOpen, (body, rest :: around) => some (loop body rest, around)
  | .loopOpen, (_, []) => none

/-- Reads the end of a nested program, of which some loops may have been entered. -/
def read : List Symbol → Option (Block × List Block)
  | [] => some (done, [])
  | s :: rest => (read rest).bind (attach s)

/-- The nested program of a list of symbols, if their brackets balance. -/
def ofSymbols? (symbols : List Symbol) : Option Block :=
  match read symbols with
  | some (block, []) => some block
  | _ => none

variable {syms : List Symbol}

/-- A basic instruction is put in front of the block. -/
lemma attach_symbol (instruction : Basic) (rest : Block) (around : List Block) :
    attach instruction.symbol (rest, around) = some (basic instruction rest, around) := by
  cases instruction <;> rfl

/-- What has been read stands for the symbols that were read. -/
lemma symbols_of_read {block : Block} {around : List Block} (h : read syms = some (block, around)) :
    syms = block.symbols ++ around.flatMap fun rest => .loopClose :: rest.symbols := by
  induction syms generalizing block around with
  | nil =>
    cases h
    rfl
  | cons s rest ih =>
    obtain ⟨⟨inner, outer⟩, hread, hattach⟩ := Option.bind_eq_some_iff.mp h
    rw [ih hread]
    cases s with
    | loopOpen =>
      cases outer with
      | nil => cases hattach
      | cons next outer =>
        cases hattach
        simp [symbols]
    | _ =>
      cases hattach
      simp [symbols, Basic.symbol]

/-- The symbols of a nested program are read as that program. -/
lemma read_symbols_append (block : Block) {rest : List Symbol} {around : List Block}
    (h : read rest = some (done, around)) :
    read (block.symbols ++ rest) = some (block, around) := by
  induction block generalizing rest around with
  | done => exact h
  | basic instruction next ih =>
    rw [symbols, List.cons_append, read, ih h, Option.bind_some, attach_symbol]
  | loop body next ihbody ihnext =>
    have hclose : read (.loopClose :: (next.symbols ++ rest)) = some (done, next :: around) := by
      rw [read, ihnext h]
      rfl
    rw [symbols, List.cons_append, List.append_assoc, List.cons_append, read, ihbody hclose]
    rfl

/-- **A nested program is read from its symbols**, and from no others. -/
theorem ofSymbols?_eq_some_iff {block : Block} :
    ofSymbols? syms = some block ↔ block.symbols = syms := by
  unfold ofSymbols?
  constructor
  · intro h
    split at h
    · rename_i hread
      cases h
      simpa using (symbols_of_read hread).symm
    · cases h
  · rintro rfl
    have hread : read (block.symbols ++ []) = some (block, []) := read_symbols_append block rfl
    rw [List.append_nil] at hread
    rw [hread]

/-! ## Nested programs and balance -/

/-- The instructions of a nested program. -/
def code (block : Block) : List Instruction := block.symbols.map .ofSymbol

@[simp]
lemma code_done : done.code = [] := rfl

@[simp]
lemma code_basic (instruction : Basic) (rest : Block) :
    (basic instruction rest).code = .ofSymbol instruction.symbol :: rest.code := rfl

@[simp]
lemma code_loop (body rest : Block) :
    (loop body rest).code = .loopOpen :: (body.code ++ .loopClose :: rest.code) := by
  simp [code, symbols, Instruction.ofSymbol]

/-- The brackets of a nested program balance. -/
lemma balanced_code (block : Block) : Balanced block.code := by
  induction block with
  | done => decide
  | basic instruction rest ih =>
    have hone : Balanced [Instruction.ofSymbol instruction.symbol] := by
      cases instruction <;> decide
    exact hone.append ih
  | loop body rest ihbody ihrest =>
    have heq : (loop body rest).code = .loopOpen :: (body.code ++ [.loopClose]) ++ rest.code := by
      simp
    rw [heq]
    exact ihbody.enclose.append ihrest

/-- Symbols can be read from the end if no end of the list opens more loops than it closes. -/
lemma exists_read (h : ∀ k, (syms.drop k).count .loopOpen ≤ (syms.drop k).count .loopClose) :
    ∃ block around, read syms = some (block, around) ∧
      around.length + syms.count .loopOpen = syms.count .loopClose := by
  induction syms with
  | nil => exact ⟨done, [], rfl, rfl⟩
  | cons s rest ih =>
    obtain ⟨block, around, hread, hlen⟩ := ih fun k => h (k + 1)
    have hwhole := h 0
    rw [List.drop_zero] at hwhole
    rw [read, hread]
    cases s with
    | loopOpen =>
      cases around with
      | nil =>
        simp only [List.length_nil] at hlen
        simp at hwhole
        omega
      | cons next around =>
        refine ⟨loop block next, around, rfl, ?_⟩
        simp only [List.length_cons] at hlen
        simp
        omega
    | loopClose =>
      refine ⟨done, block :: around, rfl, ?_⟩
      simp
      omega
    | _ => exact ⟨_, around, rfl, by simpa using hlen⟩

/-- **Symbols make a nested program exactly when their brackets balance.** -/
theorem exists_ofSymbols?_iff :
    (∃ block, ofSymbols? syms = some block) ↔ Balanced (syms.map .ofSymbol) := by
  constructor
  · rintro ⟨block, h⟩
    rw [← ofSymbols?_eq_some_iff.mp h]
    exact block.balanced_code
  · rintro ⟨hbegin, htotal⟩
    have hcount : ∀ (s : Symbol) (l : List Symbol),
        (l.map Instruction.ofSymbol).count (.ofSymbol s) = l.count s := fun s l =>
      List.count_map_of_injective l _ (Function.LeftInverse.injective Instruction.symbol_ofSymbol) s
    have hopen := hcount .loopOpen
    have hclose := hcount .loopClose
    simp only [Instruction.ofSymbol] at hopen hclose
    rw [hopen, hclose] at htotal
    have hsuffix : ∀ k, (syms.drop k).count .loopOpen ≤ (syms.drop k).count .loopClose := by
      intro k
      have htake := hbegin (min k syms.length) (by simp)
      rw [← List.map_take, hopen, hclose, ← List.take_eq_take_min] at htake
      rw [← List.take_append_drop k syms, List.count_append, List.count_append] at htotal
      omega
    obtain ⟨block, around, hread, hlen⟩ := exists_read hsuffix
    obtain rfl : around = [] := List.length_eq_zero_iff.mp (by omega)
    exact ⟨block, by rw [ofSymbols?, hread]⟩

end Block

/-! ## Evaluation -/

/-- The state of an evaluation, with a count of what has been done. -/
structure State where
  /-- The address of the current cell. -/
  dp : Int
  /-- The cells. -/
  cells : Int → UInt8
  /-- The least address that was visited. -/
  least : Int
  /-- The greatest address that was visited. -/
  greatest : Int
  /-- The input. -/
  input : InputSource
  /-- The bytes that were written. -/
  output : List UInt8
  /-- The number of basic instructions that were evaluated. -/
  basics : Nat
  /-- The number of loops that were entered or passed over. -/
  entries : Nat
  /-- The number of loop bodies that were evaluated to their end. -/
  iterations : Nat

/-- What an evaluation leads to. -/
inductive Outcome
  /-- The evaluation ends normally. -/
  | ended (state : State)
  /-- The evaluation ends with a move that the tape limit forbids. -/
  | refused (refusal : OutOfCells)
  /-- The fuel does not suffice. -/
  | exhausted

/-- Goes on from the state at which an evaluation ends normally. -/
def Outcome.andThen (outcome : Outcome) (next : State → Outcome) : Outcome :=
  match outcome with
  | ended s => next s
  | refused refusal => refused refusal
  | exhausted => exhausted

namespace State

/-- The state at the start: all cells are zero, and only cell `0` was visited. -/
def start (reader : Reader) : State where
  dp := 0
  cells := fun _ => 0
  least := 0
  greatest := 0
  input := { reader }
  output := []
  basics := 0
  entries := 0
  iterations := 0

/-- The current cell. -/
def cell (s : State) : UInt8 := s.cells s.dp

/-- Moves to an address, if the cells from the least to the greatest address visited are no more
than the limit then. -/
def visit (s : State) (limit : Option Nat) (address : Int) : Outcome :=
  let least := min s.least address
  let greatest := max s.greatest address
  let moved := { s with dp := address, least, greatest, basics := s.basics + 1 }
  match limit with
  | none => .ended moved
  | some limit =>
    if limit < greatest - least + 1 then .refused ⟨address, limit⟩ else .ended moved

/-- Stores a byte in the current cell. -/
def set (s : State) (byte : UInt8) : State :=
  { s with cells := Function.update s.cells s.dp byte, basics := s.basics + 1 }

/-- The effect of a basic instruction. -/
def perform (s : State) (limit : Option Nat) : Basic → Outcome
  | .right => s.visit limit (s.dp + 1)
  | .left => s.visit limit (s.dp - 1)
  | .incr => .ended (s.set (s.cell + 1))
  | .decr => .ended (s.set (s.cell - 1))
  | .output => .ended { s with output := s.output ++ [s.cell], basics := s.basics + 1 }
  | .input => .ended ({ s with input := s.input.readByte.2 }.set s.input.readByte.1)

end State

/-- Repeats a loop body as long as the current cell is not zero, at most as often as some fuel
says. -/
def whileNonzero (body : State → Outcome) : Nat → State → Outcome
  | 0, _ => .exhausted
  | fuel + 1, s =>
    if s.cell = 0 then
      .ended s
    else
      (body s).andThen fun s =>
        whileNonzero body fuel { s with iterations := s.iterations + 1 }

/-- The evaluation of a nested program. The fuel bounds how often each loop is repeated. -/
def Block.eval (limit : Option Nat) (fuel : Nat) : Block → State → Outcome
  | done, s => .ended s
  | basic instruction rest, s => (s.perform limit instruction).andThen (rest.eval limit fuel)
  | loop body rest, s =>
    (whileNonzero (body.eval limit fuel) fuel { s with entries := s.entries + 1 }).andThen
      (rest.eval limit fuel)

/-! ## More fuel -/

/-- Two evaluations agree as far as the fuel of the first suffices. -/
def Outcome.Extends (outcome outcome' : Outcome) : Prop :=
  outcome ≠ .exhausted → outcome' = outcome

/-- What goes on with more fuel has the same outcome. -/
lemma Outcome.Extends.andThen {o o' : Outcome} {next next' : State → Outcome} (h : o.Extends o')
    (hnext : ∀ s, (next s).Extends (next' s)) : (o.andThen next).Extends (o'.andThen next') := by
  intro hne
  cases o with
  | ended s =>
    rw [h (by simp)]
    exact hnext s hne
  | refused refusal =>
    rw [h (by simp)]
    rfl
  | exhausted => exact absurd rfl hne

/-- A loop has the same outcome with more fuel, if its body has. -/
lemma whileNonzero_extends {body body' : State → Outcome}
    (hbody : ∀ s, (body s).Extends (body' s)) {fuel fuel' : Nat} (hle : fuel ≤ fuel') (s : State) :
    (whileNonzero body fuel s).Extends (whileNonzero body' fuel' s) := by
  induction fuel generalizing fuel' s with
  | zero => exact absurd rfl
  | succ fuel ih =>
    obtain ⟨fuel', rfl⟩ : ∃ n, fuel' = n + 1 := ⟨fuel' - 1, by omega⟩
    unfold whileNonzero
    split
    · exact fun _ => rfl
    · exact (hbody s).andThen fun s => ih (by omega) _

/-- **An evaluation has one outcome**: more fuel does not change it. -/
theorem Block.eval_mono {limit : Option Nat} {fuel fuel' : Nat} (hle : fuel ≤ fuel')
    (block : Block) (s : State) :
    (block.eval limit fuel s).Extends (block.eval limit fuel' s) := by
  induction block generalizing s with
  | done => exact fun _ => rfl
  | basic instruction rest ih => exact Outcome.Extends.andThen (fun _ => rfl) ih
  | loop body rest ihbody ihrest => exact (whileNonzero_extends ihbody hle _).andThen ihrest

end Structured

end TapeMachine

/-!
# The eight symbols of the tape language

A program text is a string of bytes. Eight ASCII symbols are instructions; every other byte is
a comment.

## Main definitions

* `TapeMachine.Symbol` — the eight symbols.
* `TapeMachine.Symbol.byte` — the ASCII code of a symbol.
* `TapeMachine.Symbol.ofByte?` — the symbol that a byte stands for, if any.
* `TapeMachine.symbols`, `TapeMachine.commentCount` — a text split into its symbols and the
  number of its comment bytes.

## Main results

* `TapeMachine.Symbol.ofByte?_eq_some_iff` — a byte stands for a symbol exactly when it is the
  code of that symbol.
* `TapeMachine.length_symbols_add_commentCount` — every byte is a symbol or a comment.
-/

set_option autoImplicit false

namespace TapeMachine

/-- The symbols of the tape language. -/
inductive Symbol
  /-- The symbol `>`: move one cell to the right. -/
  | right
  /-- The symbol `<`: move one cell to the left. -/
  | left
  /-- The symbol `+`: add one to the current cell. -/
  | incr
  /-- The symbol `-`: subtract one from the current cell. -/
  | decr
  /-- The symbol `.`: write the current cell. -/
  | output
  /-- The symbol `,`: read a byte into the current cell. -/
  | input
  /-- The symbol `[`: enter the loop unless the current cell is zero. -/
  | loopOpen
  /-- The symbol `]`: repeat the loop unless the current cell is zero. -/
  | loopClose
deriving DecidableEq, Repr

namespace Symbol

/-- The character of a symbol. -/
def char : Symbol → Char
  | right => '>'
  | left => '<'
  | incr => '+'
  | decr => '-'
  | output => '.'
  | input => ','
  | loopOpen => '['
  | loopClose => ']'

/-- The ASCII code of a symbol. -/
def byte (s : Symbol) : UInt8 := s.char.toUInt8

/-- The symbol that a byte stands for; comment bytes stand for none. -/
def ofByte? (b : UInt8) : Option Symbol :=
  [right, left, incr, decr, output, input, loopOpen, loopClose].find? (·.byte == b)

@[simp]
theorem ofByte?_byte (s : Symbol) : ofByte? s.byte = some s := by
  cases s <;> rfl

/-- A byte stands for a symbol exactly when it is the code of that symbol. -/
theorem ofByte?_eq_some_iff {b : UInt8} {s : Symbol} : ofByte? b = some s ↔ b = s.byte := by
  constructor
  · intro h
    unfold ofByte? at h
    have hb := List.find?_some h
    exact (beq_iff_eq.mp hb).symm
  · rintro rfl
    exact ofByte?_byte s

end Symbol

/-- The symbols of a program text, in order. -/
def symbols (source : List UInt8) : List Symbol :=
  source.filterMap Symbol.ofByte?

/-- The number of comment bytes of a program text. -/
def commentCount (source : List UInt8) : Nat :=
  source.countP fun b => (Symbol.ofByte? b).isNone

/-- Every byte of a text is a symbol or a comment. -/
theorem length_symbols_add_commentCount (source : List UInt8) :
    (symbols source).length + commentCount source = source.length := by
  induction source with
  | nil => rfl
  | cons b rest ih =>
    cases h : Symbol.ofByte? b <;>
      simp only [symbols, commentCount, List.filterMap_cons, List.countP_cons, h,
        List.length_cons, Option.isNone_none, Option.isNone_some] at ih ⊢ <;>
      simp <;> omega

end TapeMachine

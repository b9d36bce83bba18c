import TapeMachine.Text.Ranges

/-!
# Blank characters

A command and a line of the shell are read without the blanks around them. The blanks are the
characters that Unicode marks as `White_Space`.

## Main definitions

* `TapeMachine.Text.isBlank` — whether a character is blank.
* `TapeMachine.Text.strip` — a text without the blanks at its two ends.

## Main results

* `TapeMachine.Text.isBlank_of_isWhitespace` — the ASCII blanks are blanks.
-/

set_option autoImplicit false

namespace TapeMachine.Text

/-- The code points marked as `White_Space`, as ranges in ascending order. -/
def blankRanges : List (Nat × Nat) :=
  [(0x09, 0x0D), (0x20, 0x20), (0x85, 0x85), (0xA0, 0xA0), (0x1680, 0x1680), (0x2000, 0x200A),
    (0x2028, 0x2029), (0x202F, 0x202F), (0x205F, 0x205F), (0x3000, 0x3000)]

/-- Whether a character is blank. -/
def isBlank (c : Char) : Bool := inRanges blankRanges c

/-- The ASCII blanks are blanks. -/
theorem isBlank_of_isWhitespace {c : Char} (h : c.isWhitespace = true) : isBlank c = true := by
  simp only [Char.isWhitespace, Bool.or_eq_true, decide_eq_true_eq] at h
  rcases h with ((h | h) | h) | h <;> subst h <;> decide

/-- A text without the blanks at its two ends. -/
def strip (text : String) : String :=
  String.ofList ((text.toList.dropWhile isBlank).reverse.dropWhile isBlank).reverse

end TapeMachine.Text

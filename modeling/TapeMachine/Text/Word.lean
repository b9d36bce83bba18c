/-!
# Reading numbers

Numbers on the command line are unsigned 64-bit words in decimal notation, possibly with a plus
sign.

## Main definitions

* `TapeMachine.Text.WordError` — why a text is not such a number.
* `TapeMachine.Text.parseWord` — the number that a text stands for.
-/

set_option autoImplicit false

namespace TapeMachine.Text

/-- Why a text does not stand for a number. -/
inductive WordError
  /-- There is no text. -/
  | empty
  /-- A character is not a digit. -/
  | invalidDigit
  /-- The number is `2 ^ 64` or more. -/
  | tooLarge
deriving DecidableEq, Repr

/-- The report of a text that is not a number. -/
def WordError.message : WordError → String
  | empty => "cannot parse integer from empty string"
  | invalidDigit => "invalid digit found in string"
  | tooLarge => "number too large to fit in target type"

/-- Reads digits from left to right behind the digits of `value`. The first problem met is
reported. -/
def parseDigits (value : Nat) : List Char → Except WordError Nat
  | [] => .ok value
  | c :: rest =>
    if c.isDigit then
      let value := value * 10 + (c.toNat - '0'.toNat)
      if value < 2 ^ 64 then parseDigits value rest else .error .tooLarge
    else
      .error .invalidDigit

/-- The number that a text stands for. A sign needs a digit behind it. -/
def parseWord (text : String) : Except WordError Nat :=
  match text.toList with
  | [] => .error .empty
  | ['+'] => .error .invalidDigit
  | '+' :: digits => parseDigits 0 digits
  | digits => parseDigits 0 digits

end TapeMachine.Text

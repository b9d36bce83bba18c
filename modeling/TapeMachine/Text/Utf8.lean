/-!
# Text as bytes

Text travels as UTF-8. Command lines have to be well-formed; the name of a file need not be, and
is shown with a replacement character for each part that is not.

## Main definitions

* `TapeMachine.Text.encode` — a text as bytes.
* `TapeMachine.Text.decode?` — the text that well-formed bytes stand for.
* `TapeMachine.Text.decodeLossy` — the text that any bytes stand for, with U+FFFD for each
  maximal part that begins a character and does not complete it.
-/

set_option autoImplicit false

namespace TapeMachine.Text

/-- A text as bytes. -/
def encode (text : String) : List UInt8 := text.toUTF8.data.toList

/-- The text that well-formed bytes stand for. -/
def decode? (bytes : List UInt8) : Option String :=
  String.fromUTF8? ⟨bytes.toArray⟩

/-- The range of a byte that continues a character. -/
def continuation : UInt8 × UInt8 := (0x80, 0xBF)

/-- The ranges of the bytes that complete a character, by its first byte. The first range is
narrower where the general one would admit overlong forms, surrogates or too large values. -/
def followers? (lead : UInt8) : Option (List (UInt8 × UInt8)) :=
  if lead < 0x80 then some []
  else if lead < 0xC2 then none
  else if lead < 0xE0 then some [continuation]
  else if lead = 0xE0 then some [(0xA0, 0xBF), continuation]
  else if lead = 0xED then some [(0x80, 0x9F), continuation]
  else if lead < 0xF0 then some [continuation, continuation]
  else if lead = 0xF0 then some [(0x90, 0xBF), continuation, continuation]
  else if lead < 0xF4 then some [continuation, continuation, continuation]
  else if lead = 0xF4 then some [(0x80, 0x8F), continuation, continuation]
  else none

/-- How many of the first bytes lie in the given ranges, one range for each byte. -/
def matching : List (UInt8 × UInt8) → List UInt8 → Nat
  | (low, high) :: ranges, b :: rest =>
    if low ≤ b ∧ b ≤ high then matching ranges rest + 1 else 0
  | _, _ => 0

/-- The character of a first byte and the bytes that complete it. -/
def scalar (lead : UInt8) (tail : List UInt8) : Char :=
  let start :=
    match tail.length with
    | 0 => lead.toNat
    | 1 => lead.toNat % 32
    | 2 => lead.toNat % 16
    | _ => lead.toNat % 8
  Char.ofNat (tail.foldl (fun value b => value * 64 + b.toNat % 64) start)

/-- The character that stands for bytes that are not well-formed. -/
def replacement : Char := Char.ofNat 0xFFFD

/-- The characters of any bytes. -/
def charsLossy : List UInt8 → List Char
  | [] => []
  | lead :: rest =>
    match followers? lead with
    | none => replacement :: charsLossy rest
    | some ranges =>
      let count := matching ranges rest
      let c := if count = ranges.length then scalar lead (rest.take count) else replacement
      c :: charsLossy (rest.drop count)
termination_by bytes => bytes.length
decreasing_by
  · simp
  · simp only [List.length_drop, List.length_cons]
    omega

/-- The text that any bytes stand for. -/
def decodeLossy (bytes : List UInt8) : String := String.ofList (charsLossy bytes)

end TapeMachine.Text

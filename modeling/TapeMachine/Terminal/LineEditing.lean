import TapeMachine.Stream.Reader
import TapeMachine.Terminal.Settings

/-!
# Typed input

What is typed at a terminal becomes the input of a process. In line mode a line can be edited
until it is ended; otherwise bytes are delivered as they are typed.

## Main definitions

* `TapeMachine.Keyboard` — what has been typed and not yet delivered.
* `TapeMachine.Keyboard.type` — the effect of one typed byte.
* `TapeMachine.Keyboard.typeAll` — the effect of several typed bytes.
-/

set_option autoImplicit false

namespace TapeMachine

/-- What has been typed and not yet delivered. -/
structure Keyboard where
  /-- The bytes of the line that is being typed, the last one first. -/
  line : List UInt8 := []
  /-- Whether the next byte is taken as it is. -/
  quoted : Bool := false
deriving DecidableEq, Repr

namespace Keyboard

/-- Whether a byte belongs to a word: a letter or digit, or an underscore. Bytes from `0xC0` on
are letters, apart from the two that stand for operators. -/
def isWordByte (b : UInt8) : Bool :=
  (0x30 ≤ b && b ≤ 0x39) || (0x41 ≤ b && b ≤ 0x5A) || (0x61 ≤ b && b ≤ 0x7A) || b == 0x5F ||
    (0xC0 ≤ b && b != 0xD7 && b != 0xF7)

/-- A line, the last byte first, without its last word. -/
def dropWord (line : List UInt8) : List UInt8 :=
  (line.dropWhile fun b => !isWordByte b).dropWhile isWordByte

/-- Bytes as they are delivered. -/
def delivered (bytes : List UInt8) : List ReadEvent := bytes.map .byte

/-- Delivers the line that is being typed, with a last byte. -/
def endLine (k : Keyboard) (last : List UInt8) : Keyboard × List ReadEvent :=
  ({ k with line := [] }, delivered (k.line.reverse ++ last))

/-- A typed byte in line mode, behind the characters that have a meaning in every mode: delete
takes the last byte back, control-U the line, control-W the last word; control-V quotes the next
byte, control-R shows the line again; control-D delivers the line as it stands, which is the end
of the input if it is empty; a line feed ends the line. -/
def edit (k : Keyboard) (settings : TerminalSettings) (b : UInt8) : Keyboard × List ReadEvent :=
  if b = 0x7F then ({ k with line := k.line.drop 1 }, [])
  else if b = 0x15 then ({ k with line := [] }, [])
  else if b = 0x17 then ({ k with line := dropWord k.line }, [])
  else if b = 0x16 then ({ k with quoted := true }, [])
  else if b = 0x12 ∧ settings.echo then (k, [])
  else if b = 0x04 then
    if k.line.isEmpty then (k, [.eof]) else k.endLine []
  else if b = 0x0A then k.endLine [0x0A]
  else ({ k with line := b :: k.line }, [])

/-- How many bytes of a line are kept. -/
def lineLimit : Nat := 4096

/-- Makes room for the next byte in line mode: a line that is full loses its last byte. -/
def makeRoom (k : Keyboard) : Keyboard :=
  if lineLimit ≤ k.line.length then { k with line := k.line.drop 1 } else k

/-- Delivers what has been typed where input is not delivered in lines, once a read would get
enough of it. -/
def release (k : Keyboard) (settings : TerminalSettings) : Keyboard × List ReadEvent :=
  if k.line.length < settings.minimum ∧ settings.time = 0 then (k, [])
  else k.endLine []

/-- The effect of a typed byte. Control-S and control-Q hold output back and let it go on, and
are not delivered. Neither are the three characters that raise signals, which drop the line that
is being typed: the terminal controls no process, so nothing receives those signals. -/
def type (k : Keyboard) (settings : TerminalSettings) (b : UInt8) : Keyboard × List ReadEvent :=
  let k := if settings.canonical then k.makeRoom else k
  if k.quoted ∧ settings.canonical then ({ line := b :: k.line, quoted := false }, [])
  else if b = 0x11 ∨ b = 0x13 then (k, [])
  else if settings.signals ∧ (b = 0x03 ∨ b = 0x1C ∨ b = 0x1A) then ({ k with line := [] }, [])
  else
    let b := if b = 0x0D ∧ settings.returnToLineFeed then 0x0A else b
    if settings.canonical then k.edit settings b
    else { k with line := b :: k.line }.release settings

/-- The effect of several typed bytes. -/
def typeAll (k : Keyboard) (settings : TerminalSettings) (bytes : List UInt8) :
    Keyboard × List ReadEvent :=
  bytes.foldl
    (fun (k, events) b =>
      let (k, more) := k.type settings b
      (k, events ++ more))
    (k, [])

end Keyboard

end TapeMachine

import TapeMachine.Text.Ranges
import TapeMachine.Text.Utf8

/-!
# Plain text

Words of the operator that a report quotes are shown as plain text: without control characters,
white space excepted, and without the control sequences that a terminal would obey.

A control sequence begins with an escape character, and its first characters tell where it ends.
Cancelling, substituting and another escape character end any sequence at once.

## Main definitions

* `TapeMachine.Text.ControlState` — the part of a control sequence that has been read.
* `TapeMachine.Text.plain` — what is shown of a text.

## Main results

* `TapeMachine.Text.visible_sublist` — nothing is shown that is not in the text.
* `TapeMachine.Text.visible_eq_self` — a text without control characters is shown as it is.
-/

set_option autoImplicit false

namespace TapeMachine.Text

/-- The part of a control sequence that has been read. -/
inductive ControlState
  /-- None: what follows is text. -/
  | text
  /-- The escape character. -/
  | escape
  /-- The escape character and intermediate characters. -/
  | escapeIntermediate
  /-- The opening bracket of a sequence with parameters. It ends with a letter or a sign. -/
  | sequence
  /-- The letter that opens a string for a device. -/
  | deviceEntry
  /-- Parameters of a string for a device. -/
  | deviceParameters
  /-- Intermediate characters of a string for a device. -/
  | deviceIntermediate
  /-- The beginning of a string that ends with the byte `9C`. -/
  | string
  /-- The closing bracket that opens a command for the system. It ends with a bell. -/
  | command
deriving DecidableEq, Repr

namespace ControlState

/-- Whether a character can stand between the opening of a sequence and its last character. -/
def isIntermediate (c : Char) : Bool := within 0x20 0x2F c

/-- Whether a character can be a parameter of a sequence. -/
def isParameter (c : Char) : Bool := within 0x30 0x3F c

/-- Whether a character can be the last one of a sequence with parameters. -/
def isFinal (c : Char) : Bool := within 0x40 0x7E c

/-- What a character behind the escape character opens. Most sequences end there. -/
def opened : Char → ControlState
  | '[' => sequence
  | 'P' => deviceEntry
  | 'X' => string
  | '^' => string
  | '_' => string
  | ']' => command
  | _ => text

/-- Whether the byte `9C` is a part of a character. -/
def endsString (c : Char) : Bool := (encode c.toString).contains 0x9C

/-- The state behind a further character. A character that has no meaning in a sequence changes
nothing. -/
def next (state : ControlState) (c : Char) : ControlState :=
  if c = '\x1b' then escape
  else if c = '\x18' ∨ c = '\x1a' then text
  else
    match state with
    | text => text
    | escape =>
      if isIntermediate c then escapeIntermediate
      else if isParameter c || isFinal c then opened c
      else escape
    | escapeIntermediate => if isParameter c || isFinal c then text else escapeIntermediate
    | sequence => if isFinal c then text else sequence
    | deviceEntry =>
      if isIntermediate c then deviceIntermediate
      else if isParameter c then deviceParameters
      else if isFinal c then string
      else deviceEntry
    | deviceParameters =>
      if isIntermediate c then deviceIntermediate
      else if within 0x3C 0x3F c || isFinal c then string
      else deviceParameters
    | deviceIntermediate =>
      if isParameter c || isFinal c then string else deviceIntermediate
    | string => if endsString c then text else string
    | command => if c = '\x07' then text else command

/-- Whether white space inside a sequence is shown. In strings it is a part of the string. -/
def showsSpace : ControlState → Bool
  | text => true
  | escape => true
  | escapeIntermediate => true
  | sequence => true
  | _ => false

end ControlState

/-- Whether a character is white space that is also a control character. -/
def isControlSpace (c : Char) : Bool := c = '\t' || c = '\n' || c = '\x0c' || c = '\r'

/-- Whether a character of a text is shown. -/
def isVisible (c : Char) : Bool :=
  within 0x20 0x7E c || 0x80 ≤ c.toNat || isControlSpace c

/-- How far a text has been read. -/
structure PlainScan where
  /-- The control sequence that has been begun. -/
  state : ControlState := .text
  /-- Whether white space has suspended that sequence: what follows is text, up to the next
  character that is not visible. -/
  suspended : Bool := false
deriving DecidableEq, Repr

namespace PlainScan

/-- Whether the next visible character is shown. -/
def inText (scan : PlainScan) : Bool := scan.suspended || scan.state = .text

/-- Whether a character is shown. -/
def shows (scan : PlainScan) (c : Char) : Bool :=
  if scan.inText then isVisible c else isControlSpace c && scan.state.showsSpace

/-- How far a text has been read behind a further character. A character beyond ASCII gives up a
suspended sequence, and a character that is not visible resumes it. -/
def step (scan : PlainScan) (c : Char) : PlainScan :=
  if scan.shows c then
    if 0x80 ≤ c.toNat then {} else { scan with suspended := scan.state ≠ .text }
  else
    { state := scan.state.next c }

end PlainScan

/-- What is shown of the rest of a text. -/
def visible (scan : PlainScan) : List Char → List Char
  | [] => []
  | c :: rest =>
    if scan.shows c then c :: visible (scan.step c) rest else visible (scan.step c) rest

/-- What is shown of a text. -/
def plain (text : String) : String := String.ofList (visible {} text.toList)

/-- Nothing is shown that is not in the text. -/
theorem visible_sublist (scan : PlainScan) (text : List Char) :
    List.Sublist (visible scan text) text := by
  induction text generalizing scan with
  | nil => simp [visible]
  | cons c rest ih =>
    unfold visible
    split
    · exact (ih _).cons_cons c
    · exact (ih _).cons c

/-- A text of visible characters is shown as it is. -/
theorem visible_eq_self {text : List Char} (h : text.all isVisible = true) :
    visible {} text = text := by
  induction text with
  | nil => rfl
  | cons c rest ih =>
    rw [List.all_cons, Bool.and_eq_true] at h
    have hs : PlainScan.shows {} c = true := by simpa [PlainScan.shows, PlainScan.inText] using h.1
    have hn : PlainScan.step {} c = {} := by
      unfold PlainScan.step
      rw [if_pos hs]
      split <;> rfl
    unfold visible
    rw [if_pos hs, hn, ih h.2]

end TapeMachine.Text

import TapeMachine.Stream.Failure

/-!
# Readers

A reader is the list of what its read calls give. The end of input is an event and not a state:
a terminal can report it and go on to deliver bytes.

## Main definitions

* `TapeMachine.ReadEvent` — what one read call gives.
* `TapeMachine.Reader` — the events to come, and what follows them.
* `TapeMachine.Reader.next` — the next byte, end of input or failure; interrupted calls are
  repeated.
* `TapeMachine.Reader.nextLine` — the bytes up to a line feed, end of input or failure.

## Main results

* `TapeMachine.Reader.length_nextLine_lt` — taking a line that is not empty uses up events.
-/

set_option autoImplicit false

namespace TapeMachine

/-- What one read call gives. -/
inductive ReadEvent
  /-- One byte. -/
  | byte (b : UInt8)
  /-- The end of the input, for now. -/
  | eof
  /-- Nothing: the call was interrupted and is repeated. -/
  | interrupted
  /-- A failure. -/
  | failed (cause : IoError)
deriving DecidableEq, Repr

/-- A source of bytes. -/
structure Reader where
  /-- What the next read calls give, in order. -/
  events : List ReadEvent
  /-- The failure of every call after that; if there is none they give the end of the input. -/
  fault? : Option IoError := none
deriving DecidableEq, Repr

/-- What a read gives once interrupted calls have been repeated. -/
inductive Received
  /-- One byte. -/
  | byte (b : UInt8)
  /-- The end of the input, for now. -/
  | eof
  /-- A failure. -/
  | failed (cause : IoError)
deriving DecidableEq, Repr

namespace Reader

/-- The reader that gives the bytes of a list and then the end of the input. -/
def ofBytes (bytes : List UInt8) : Reader := { events := bytes.map .byte }

/-- What a reader gives when its events are used up. -/
def exhausted (r : Reader) : Received :=
  match r.fault? with
  | some cause => .failed cause
  | none => .eof

/-- What a reader gives next, and the reader after that. -/
def next (r : Reader) : Received × Reader :=
  go r.events
where
  /-- Reads on in a list of events. -/
  go : List ReadEvent → Received × Reader
    | [] => (r.exhausted, { r with events := [] })
    | .byte b :: rest => (.byte b, { r with events := rest })
    | .eof :: rest => (.eof, { r with events := rest })
    | .interrupted :: rest => go rest
    | .failed cause :: rest => (.failed cause, { r with events := rest })

/-- The bytes up to and including the next line feed, or up to the end of the input. A failure
loses the bytes that were read before it. -/
def nextLine (r : Reader) : Except IoError (List UInt8) × Reader :=
  go [] r.events
where
  /-- Reads on in a list of events; `line` holds the bytes read so far, in reverse. -/
  go (line : List UInt8) : List ReadEvent → Except IoError (List UInt8) × Reader
    | [] =>
      match r.fault? with
      | some cause => (.error cause, { r with events := [] })
      | none => (.ok line.reverse, { r with events := [] })
    | .byte b :: rest =>
      if b = 10 then
        (.ok (b :: line).reverse, { r with events := rest })
      else
        go (b :: line) rest
    | .eof :: rest => (.ok line.reverse, { r with events := rest })
    | .interrupted :: rest => go line rest
    | .failed cause :: rest => (.error cause, { r with events := rest })

/-- Whether a byte, an end of input or a failure is at hand. -/
def ready (r : Reader) : Bool :=
  r.events.any (· != .interrupted)

/-- Whether a whole line is at hand: the events hold a line feed, an end of input or a failure. -/
def lineReady (r : Reader) : Bool :=
  r.events.any fun
    | .byte b => b == 10
    | .interrupted => false
    | _ => true

/-- Adds events at the end of a reader. -/
def feed (r : Reader) (events : List ReadEvent) : Reader :=
  { r with events := r.events ++ events }

/-! ## Lines use up events -/

theorem length_nextLine_go_le (r : Reader) (line : List UInt8) (events : List ReadEvent) :
    (nextLine.go r line events).2.events.length ≤ events.length := by
  induction events generalizing line with
  | nil =>
    unfold nextLine.go
    split <;> simp
  | cons event rest ih =>
    cases event with
    | byte b =>
      unfold nextLine.go
      split
      · simp
      · exact Nat.le_succ_of_le (ih _)
    | eof => simp [nextLine.go]
    | interrupted =>
      unfold nextLine.go
      exact Nat.le_succ_of_le (ih _)
    | failed cause => simp [nextLine.go]

/-- Taking a line that is not empty uses up events. -/
theorem length_nextLine_lt (r : Reader) {line : List UInt8} (h : r.nextLine.1 = .ok line)
    (hne : line ≠ []) : r.nextLine.2.events.length < r.events.length := by
  unfold nextLine at h ⊢
  match hev : r.events with
  | [] =>
    rw [hev] at h
    unfold nextLine.go at h
    split at h <;> simp_all
  | .byte b :: rest =>
    unfold nextLine.go
    split
    · simp
    · exact Nat.lt_succ_of_le (length_nextLine_go_le r _ rest)
  | .eof :: rest => simp [nextLine.go]
  | .interrupted :: rest =>
    unfold nextLine.go
    exact Nat.lt_succ_of_le (length_nextLine_go_le r _ rest)
  | .failed cause :: rest => simp [nextLine.go]

end Reader

end TapeMachine

import TapeMachine.Stream.Reader
import TapeMachine.Stream.Writer

/-!
# Input and output of a running program

A program reads and writes single bytes. Its input never fails: where the reader has nothing to
give the program reads zero. Its output is collected and handed to the writer in blocks.

## Main definitions

* `TapeMachine.InputSource` — a reader and the number of bytes taken from it.
* `TapeMachine.InputSource.readByte` — the next byte, or zero.
* `TapeMachine.OutputSink` — a writer, the bytes not yet handed to it, and the number of bytes
  that the program has written.
* `TapeMachine.OutputSink.push`, `TapeMachine.OutputSink.flush` — one byte more, and the pending
  bytes handed over.
-/

set_option autoImplicit false

namespace TapeMachine

/-- The input of a running program. -/
structure InputSource where
  /-- Where the bytes come from. -/
  reader : Reader
  /-- The number of bytes that the reader has given. Substituted zeros do not count. -/
  consumed : Nat := 0

namespace InputSource

/-- The next byte of the input. At the end of the input, and where the reader fails, it is
zero. -/
def readByte (source : InputSource) : UInt8 × InputSource :=
  match source.reader.next with
  | (.byte b, reader) => (b, ⟨reader, source.consumed + 1⟩)
  | (.eof, reader) | (.failed _, reader) => (0, { source with reader })

end InputSource

/-- The output of a running program. -/
structure OutputSink where
  /-- Where the bytes go. -/
  writer : Writer
  /-- How many bytes are collected before they are handed over; zero acts as one. -/
  threshold : Nat
  /-- The bytes that have been collected. -/
  pending : Array UInt8 := #[]
  /-- The number of bytes that the program has written, handed over or not. -/
  written : Nat := 0

namespace OutputSink

/-- Hands the pending bytes to the writer. They are dropped only once all of them have been
accepted. -/
def flush (sink : OutputSink) : Except IoError Unit × OutputSink :=
  match sink.writer.writeAll sink.pending.toList with
  | (.error cause, writer) => (.error cause, { sink with writer })
  | (.ok (), writer) =>
    match writer.flush with
    | (result, writer) => (result, { sink with writer, pending := #[] })

/-- Collects a byte, and hands the pending bytes over once there are enough. The byte stays
collected when that fails. -/
def push (sink : OutputSink) (byte : UInt8) : Except IoError Unit × OutputSink :=
  let sink := { sink with pending := sink.pending.push byte, written := sink.written + 1 }
  if sink.threshold ≤ sink.pending.size then sink.flush else (.ok (), sink)

end OutputSink

end TapeMachine

import TapeMachine.Stream.Failure

/-!
# Writers

A writer takes bytes and may take fewer than it is offered, fail, or run out of room. What it
does is laid down in advance by plans, so that a run can be repeated and compared.

## Main definitions

* `TapeMachine.Writer` — the plans, the room, and what has happened so far.
* `TapeMachine.Writer.accept` — one attempt to hand over bytes.
* `TapeMachine.Writer.writeAll` — attempts until everything is accepted or one fails.
* `TapeMachine.Writer.flush` — the request to pass accepted bytes on.
-/

set_option autoImplicit false

namespace TapeMachine

/-- What a writer does with one attempt. -/
inductive WriteReply
  /-- The attempt is interrupted before anything is accepted. -/
  | interrupted
  /-- The attempt fails before anything is accepted. -/
  | broken
  /-- Bytes are accepted, at most so many if that is bounded. -/
  | accepts (atMost : Option Nat)
deriving DecidableEq, Repr

/-- What a writer does with a request to flush. -/
inductive FlushReply
  /-- The request succeeds. -/
  | done
  /-- The request fails. -/
  | broken
deriving DecidableEq, Repr

/-- What has happened at a writer. -/
inductive WriterEvent
  /-- Bytes were accepted, possibly none. -/
  | accepted (bytes : List UInt8)
  /-- An attempt was interrupted. -/
  | interrupted
  /-- An attempt failed. -/
  | broken
  /-- An attempt found no room. -/
  | full
  /-- A request to flush succeeded. -/
  | flushed
  /-- A request to flush failed. -/
  | flushBroken
deriving DecidableEq, Repr

/-- A sink for bytes. -/
structure Writer where
  /-- What the next attempts meet; once it is used up everything is accepted. -/
  plan : List WriteReply := []
  /-- What the next requests to flush meet; once it is used up they succeed. -/
  flushPlan : List FlushReply := []
  /-- How many bytes fit in all, if that is bounded. -/
  capacity : Option Nat := none
  /-- The failure of an attempt that finds no room. -/
  whenFull : IoError := .sinkFull
  /-- The bytes accepted so far. -/
  accepted : Array UInt8 := #[]
  /-- What has happened so far. -/
  log : Array WriterEvent := #[]
deriving DecidableEq, Repr

namespace Writer

/-- An attempt that finds no room. -/
def refuse (w : Writer) : IoError × Writer := (w.whenFull, { w with log := w.log.push .full })

/-- Accepts the first bytes of a buffer, as many as are offered and fit, and gives their number.
The attempt is refused if there is no room at all. -/
def accept (w : Writer) (buffer : List UInt8) (offered : Nat) : Except IoError Nat × Writer :=
  let take (count : Nat) : Except IoError Nat × Writer :=
    let bytes := buffer.take count
    (.ok bytes.length,
      { w with accepted := w.accepted ++ bytes, log := w.log.push (.accepted bytes) })
  match w.capacity with
  | none => take offered
  | some capacity =>
    if capacity ≤ w.accepted.size then
      let refused := w.refuse
      (.error refused.1, refused.2)
    else
      take (min offered (capacity - w.accepted.size))

/-- Writes a buffer that is not empty once the plan is used up. All of it is accepted, unless
the room gives out; what does not fit is then refused by one more attempt. -/
def writeRest (w : Writer) (buffer : List UInt8) : Except IoError Unit × Writer :=
  match w.accept buffer buffer.length with
  | (.error cause, w) => (.error cause, w)
  | (.ok count, w) =>
    if count < buffer.length then
      let refused := w.refuse
      (.error refused.1, refused.2)
    else
      (.ok (), w)

/-- Attempts to write until the whole buffer is accepted or an attempt fails; interrupted
attempts are repeated, and an attempt at which nothing is accepted counts as failed. An empty
buffer takes no attempt. -/
def writeAll (w : Writer) (buffer : List UInt8) : Except IoError Unit × Writer :=
  go w.plan w buffer
where
  /-- Writes a buffer by the replies of a plan. -/
  go : List WriteReply → Writer → List UInt8 → Except IoError Unit × Writer
    | plan, w, [] => (.ok (), { w with plan })
    | [], w, buffer => { w with plan := [] }.writeRest buffer
    | .interrupted :: plan, w, buffer => go plan { w with log := w.log.push .interrupted } buffer
    | .broken :: plan, w, _ =>
      (.error .brokenSink, { w with plan, log := w.log.push .broken })
    | .accepts atMost :: plan, w, buffer =>
      match w.accept buffer (atMost.getD buffer.length) with
      | (.error cause, w) => (.error cause, { w with plan })
      | (.ok 0, w) => (.error .wroteNothing, { w with plan })
      | (.ok count, w) => go plan w (buffer.drop count)

/-- A request to pass accepted bytes on. -/
def flush (w : Writer) : Except IoError Unit × Writer :=
  match w.flushPlan with
  | .broken :: flushPlan =>
    (.error .brokenFlush, { w with flushPlan, log := w.log.push .flushBroken })
  | .done :: flushPlan => (.ok (), { w with flushPlan, log := w.log.push .flushed })
  | [] => (.ok (), { w with log := w.log.push .flushed })

end Writer

end TapeMachine

import Mathlib.Tactic
import TapeMachine.Proofs.Stream.Delivery

/-!
# Output over faulty writers

A writer may be interrupted, fail, accept less than it is offered or nothing, run out of room, and
refuse to pass bytes on. Each time a sink hands its pending bytes over it makes one attempt to write
all of them. What has become of every byte is told by these attempts and by the bytes that are still
pending.

## Main definitions

* `TapeMachine.Attempt` — an attempt to write a buffer whole, with what the writer accepted.
* `TapeMachine.SinkCall` — the calls on a sink.
* `TapeMachine.OutputSink.after`, `TapeMachine.OutputSink.attempts` — the sink after a sequence of
  calls, and the attempts that are made in the course of them.
* `TapeMachine.OutputSink.Accounts` — where the bytes are that were pushed.

## Main results

* `TapeMachine.Writer.exists_take_of_writeAll` — whatever goes wrong, the writer has accepted a
  beginning of the buffer.
* `TapeMachine.OutputSink.Accounts.flush`, `TapeMachine.OutputSink.Accounts.perform` — what one
  hand-over and one call do to the account of the bytes.
* `TapeMachine.OutputSink.no_byte_lost_or_reordered` — the account after any sequence of calls.
-/

set_option autoImplicit false

namespace TapeMachine

/-! ## Attempts to write a buffer -/

/-- An attempt to write a buffer whole. -/
structure Attempt where
  /-- The bytes that were to be written. -/
  buffer : List UInt8
  /-- Whether all of them were written. -/
  succeeded : Bool
  /-- The bytes that the writer accepted in the course of the attempt. -/
  accepted : List UInt8
deriving DecidableEq, Repr

/-- An attempt writes the whole buffer, or it fails and a beginning of the buffer was accepted,
possibly nothing. -/
def Attempt.Honest (a : Attempt) : Prop :=
  if a.succeeded then a.accepted = a.buffer else a.accepted <+: a.buffer

/-- The buffers that were written by some attempts, one behind another. -/
def writtenBy (attempts : List Attempt) : List UInt8 :=
  (attempts.filter Attempt.succeeded).flatMap Attempt.buffer

/-- One attempt more writes its buffer behind the others, if it succeeds. -/
lemma writtenBy_concat (attempts : List Attempt) (a : Attempt) :
    writtenBy (attempts ++ [a]) = writtenBy attempts ++ if a.succeeded then a.buffer else [] := by
  cases hs : a.succeeded <;> simp [writtenBy, hs]

/-- The bytes that were accepted in the course of some attempts, one behind another. -/
def acceptedBy (attempts : List Attempt) : List UInt8 := attempts.flatMap Attempt.accepted

/-- If nothing is accepted by attempts that fail, then what is accepted is what is written. -/
lemma acceptedBy_eq_writtenBy {attempts : List Attempt} (h : ∀ a ∈ attempts, a.Honest)
    (hnone : ∀ a ∈ attempts, a.succeeded = false → a.accepted = []) :
    acceptedBy attempts = writtenBy attempts := by
  induction attempts using List.reverseRecOn with
  | nil => rfl
  | append_singleton attempts a ih =>
    have ha : a ∈ attempts ++ [a] := by simp
    have hone := h a ha
    rw [writtenBy_concat, acceptedBy, List.flatMap_append, List.flatMap_singleton]
    rw [← ih (fun b hb => h b (List.mem_append_left _ hb))
      (fun b hb => hnone b (List.mem_append_left _ hb))]
    cases hs : a.succeeded with
    | true =>
      rw [Attempt.Honest, hs] at hone
      exact congrArg _ hone
    | false =>
      rw [hnone a ha hs]
      rfl

namespace Writer

variable {w w' : Writer} {buffer : List UInt8}

/-- The attempt of a writer to write a buffer. -/
def attempt (w : Writer) (buffer : List UInt8) : Attempt where
  buffer
  succeeded := (w.writeAll buffer).1.isOk
  accepted := (w.writeAll buffer).2.accepted.toList.drop w.accepted.size

/-- Whatever comes of offering bytes to a writer once, it adds a beginning of the buffer to what was
accepted. -/
lemma exists_take_of_accept {offered : Nat} {r : Except IoError Nat}
    (h : w.accept buffer offered = (r, w')) :
    ∃ n, w'.accepted.toList = w.accepted.toList ++ buffer.take n := by
  cases r with
  | ok count => exact ⟨count, (accepted_of_accept h).1⟩
  | error cause =>
    refine ⟨0, ?_⟩
    simp only [accept] at h
    split at h
    · cases h
    · split at h
      · cases h
        simp [refuse]
      · cases h

/-- A writer without a plan has accepted a beginning of the buffer. -/
lemma exists_take_of_writeRest {r : Except IoError Unit} (h : w.writeRest buffer = (r, w')) :
    ∃ n, w'.accepted.toList = w.accepted.toList ++ buffer.take n := by
  unfold writeRest at h
  split at h
  · rename_i hattempt
    cases h
    exact exists_take_of_accept hattempt
  · rename_i count w₁ hattempt
    have hsome := exists_take_of_accept hattempt
    split at h
    · cases h
      exact hsome
    · cases h
      exact hsome

/-- **Whatever goes wrong, the writer has accepted a beginning of the buffer**, behind what was
accepted before.

**Proof sketch.** Induction on the plan. Where some bytes are accepted, what is left to write is the
buffer behind them. -/
theorem exists_take_of_writeAll {r : Except IoError Unit} (h : w.writeAll buffer = (r, w')) :
    ∃ n, w'.accepted.toList = w.accepted.toList ++ buffer.take n := by
  unfold writeAll at h
  generalize w.plan = plan at h
  fun_induction writeAll.go plan w buffer with
  | case1 plan w =>
    cases h
    exact ⟨0, by simp⟩
  | case2 w buffer _ => exact exists_take_of_writeRest (w := { w with plan := [] }) h
  | case3 _ _ _ _ ih => exact ih h
  | case4 =>
    cases h
    exact ⟨0, by simp⟩
  | case5 _ _ _ _ _ _ _ hattempt =>
    obtain ⟨n, hn⟩ := exists_take_of_accept hattempt
    cases h
    exact ⟨n, hn⟩
  | case6 _ _ _ _ _ _ hattempt =>
    obtain ⟨n, hn⟩ := exists_take_of_accept hattempt
    cases h
    exact ⟨n, hn⟩
  | case7 w _ _ buffer _ count w₁ _ hattempt ih =>
    obtain ⟨n, hn⟩ := ih h
    refine ⟨count + n, ?_⟩
    rw [hn, (accepted_of_accept hattempt).1, List.take_add, List.append_assoc]

/-- What is accepted in the course of an attempt comes behind what was accepted before. -/
lemma accepted_writeAll (w : Writer) (buffer : List UInt8) :
    (w.writeAll buffer).2.accepted.toList = w.accepted.toList ++ (w.attempt buffer).accepted := by
  obtain ⟨n, hn⟩ := exists_take_of_writeAll (Prod.eta (w.writeAll buffer)).symm
  rw [attempt, hn, ← Array.length_toList, List.drop_left]

/-- Every attempt writes the buffer whole or has accepted a beginning of it. -/
lemma honest_attempt (w : Writer) (buffer : List UInt8) : (w.attempt buffer).Honest := by
  have haccepted := w.accepted_writeAll buffer
  unfold Attempt.Honest
  split
  · rename_i hs
    rcases hwrite : w.writeAll buffer with ⟨_ | _, w'⟩
    · simp [attempt, hwrite, Except.isOk, Except.toBool] at hs
    · rw [hwrite, accepted_of_writeAll hwrite] at haccepted
      exact (List.append_cancel_left haccepted).symm
  · obtain ⟨n, hn⟩ := exists_take_of_writeAll (Prod.eta (w.writeAll buffer)).symm
    rw [hn] at haccepted
    rw [← List.append_cancel_left haccepted]
    exact List.take_prefix n buffer

end Writer

/-! ## Calls on a sink -/

/-- A call on a sink. -/
inductive SinkCall
  /-- Write one byte. -/
  | push (byte : UInt8)
  /-- Hand the pending bytes over. -/
  | flush
deriving DecidableEq, Repr

/-- The bytes that a call pushes. -/
def SinkCall.bytes : SinkCall → List UInt8
  | push byte => [byte]
  | flush => []

/-- The bytes that a sequence of calls pushes. -/
def pushedBy (calls : List SinkCall) : List UInt8 := calls.flatMap SinkCall.bytes

namespace OutputSink

/-- A sink that has collected one byte more. -/
def collect (sink : OutputSink) (byte : UInt8) : OutputSink :=
  { sink with pending := sink.pending.push byte, written := sink.written + 1 }

/-- The attempt that is made when the pending bytes are handed over. -/
def attempt (sink : OutputSink) : Attempt := sink.writer.attempt sink.pending.toList

/-- What a call returns, and the sink after it. -/
def perform (sink : OutputSink) : SinkCall → Except IoError Unit × OutputSink
  | .push byte => sink.push byte
  | .flush => sink.flush

/-- The attempts that are made in the course of a call: a byte that is pushed leads to one if with
it enough bytes are pending. -/
def attemptsOf (sink : OutputSink) : SinkCall → List Attempt
  | .push byte =>
    if sink.threshold ≤ (sink.collect byte).pending.size then [(sink.collect byte).attempt] else []
  | .flush => [sink.attempt]

/-- The sink after a sequence of calls. A call that fails does not keep the others from being
made. -/
def after (sink : OutputSink) : List SinkCall → OutputSink
  | [] => sink
  | call :: calls => (sink.perform call).2.after calls

/-- The attempts that are made in the course of a sequence of calls. -/
def attempts (sink : OutputSink) : List SinkCall → List Attempt
  | [] => []
  | call :: calls => sink.attemptsOf call ++ (sink.perform call).2.attempts calls

variable {sink : OutputSink}

/-- One sequence of calls after another. -/
lemma after_append (sink : OutputSink) (calls calls' : List SinkCall) :
    sink.after (calls ++ calls') = (sink.after calls).after calls' := by
  induction calls generalizing sink with
  | nil => rfl
  | cons call calls ih => exact ih _

/-- A byte that is pushed is collected, and then the pending bytes are handed over if there are
enough. -/
lemma push_eq (sink : OutputSink) (byte : UInt8) :
    sink.push byte =
      if sink.threshold ≤ (sink.collect byte).pending.size then (sink.collect byte).flush
      else (.ok (), sink.collect byte) :=
  rfl

/-- A hand-over leaves no byte pending if all of them were written, even if the writer then does not
pass them on; else it leaves them as they are. -/
lemma pending_flush (sink : OutputSink) :
    sink.flush.2.pending.toList =
      if sink.attempt.succeeded then [] else sink.pending.toList := by
  unfold flush attempt Writer.attempt
  rcases sink.writer.writeAll sink.pending.toList with ⟨_ | _, w⟩
  · rfl
  · rfl

lemma written_flush (sink : OutputSink) : sink.flush.2.written = sink.written := by
  unfold flush
  rcases sink.writer.writeAll sink.pending.toList with ⟨_ | _, w⟩
  · rfl
  · rfl

/-- A hand-over adds to what the writer has accepted just what it accepts in the attempt. -/
lemma accepted_flush (sink : OutputSink) :
    sink.flush.2.writer.accepted.toList =
      sink.writer.accepted.toList ++ sink.attempt.accepted := by
  rw [attempt, ← Writer.accepted_writeAll]
  unfold flush
  rcases sink.writer.writeAll sink.pending.toList with ⟨_ | _, w⟩
  · rfl
  · exact congrArg Array.toList (Writer.accepted_flush w)

/-- An attempt is made on all bytes that are pending then. If it succeeds none is pending any more,
else they all are. -/
lemma pending_perform (sink : OutputSink) (call : SinkCall) {a : Attempt}
    (h : a ∈ sink.attemptsOf call) :
    a.buffer = sink.pending.toList ++ call.bytes ∧
      (sink.perform call).2.pending.toList = if a.succeeded then [] else a.buffer := by
  cases call with
  | push byte =>
    simp only [perform, push_eq]
    simp only [attemptsOf] at h
    split at h
    · rename_i hfull
      obtain rfl := List.mem_singleton.mp h
      rw [if_pos hfull, pending_flush]
      exact ⟨by simp [attempt, Writer.attempt, collect, SinkCall.bytes], rfl⟩
    · cases h
  | flush =>
    obtain rfl := List.mem_singleton.mp h
    exact ⟨(List.append_nil _).symm, pending_flush sink⟩

/-! ## The account of the bytes -/

/-- Where the bytes are that were pushed onto a sink, given the attempts that were made. When the
first of them was made the writer had accepted the bytes `prior`. -/
structure Accounts (prior pushed : List UInt8) (attempts : List Attempt) (sink : OutputSink) :
    Prop where
  /-- They have been written by attempts that succeeded, or are pending. -/
  kept : pushed = writtenBy attempts ++ sink.pending.toList
  /-- They have all been counted. -/
  counted : sink.written = pushed.length
  /-- The writer has accepted what it accepted in the attempts, and nothing else. -/
  accepted : sink.writer.accepted.toList = prior ++ acceptedBy attempts
  /-- In each attempt that was the whole buffer, or a beginning of it if the attempt failed. -/
  honest : ∀ a ∈ attempts, a.Honest

namespace Accounts

variable {prior pushed : List UInt8} {made : List Attempt}

/-- Nothing has been pushed onto a fresh sink. -/
lemma fresh (writer : Writer) (threshold : Nat) :
    Accounts writer.accepted.toList [] [] { writer, threshold } where
  kept := rfl
  counted := rfl
  accepted := (List.append_nil _).symm
  honest := by simp

/-- A byte that is collected is pending. -/
lemma collect (h : Accounts prior pushed made sink) (byte : UInt8) :
    Accounts prior (pushed ++ [byte]) made (sink.collect byte) where
  kept := by
    rw [h.kept, List.append_assoc]
    simp [OutputSink.collect]
  counted := by
    rw [List.length_append, ← h.counted]
    rfl
  accepted := h.accepted
  honest := h.honest

/-- **A hand-over moves the pending bytes behind those written before, or leaves them where they
are.** -/
theorem flush (h : Accounts prior pushed made sink) :
    Accounts prior pushed (made ++ [sink.attempt]) sink.flush.2 where
  kept := by
    rw [pending_flush, writtenBy_concat, h.kept]
    cases sink.attempt.succeeded with
    | true => simp [attempt, Writer.attempt]
    | false => simp
  counted := (written_flush sink).trans h.counted
  accepted := by
    rw [accepted_flush, h.accepted, List.append_assoc]
    simp [acceptedBy]
  honest := by
    intro a ha
    rcases List.mem_append.mp ha with ha | ha
    · exact h.honest a ha
    · obtain rfl := List.mem_singleton.mp ha
      exact Writer.honest_attempt _ _

/-- **One call** pushes its bytes, and makes its attempts. -/
theorem perform (h : Accounts prior pushed made sink) (call : SinkCall) :
    Accounts prior (pushed ++ call.bytes) (made ++ sink.attemptsOf call)
      (sink.perform call).2 := by
  cases call with
  | push byte =>
    simp only [OutputSink.perform, attemptsOf, push_eq]
    split
    · exact (h.collect byte).flush
    · rw [List.append_nil]
      exact h.collect byte
  | flush =>
    rw [SinkCall.bytes, List.append_nil]
    exact h.flush

/-- Any sequence of calls pushes its bytes, and makes its attempts.

**Proof sketch.** Induction on the calls, from the account in front of them. -/
lemma after (h : Accounts prior pushed made sink) (calls : List SinkCall) :
    Accounts prior (pushed ++ pushedBy calls) (made ++ sink.attempts calls)
      (sink.after calls) := by
  induction calls generalizing pushed made sink with
  | nil => simpa [pushedBy, attempts, OutputSink.after] using h
  | cons call calls ih =>
    have hrest := ih (h.perform call)
    rwa [List.append_assoc, List.append_assoc] at hrest

end Accounts

/-- **A sink loses and reorders nothing**, whatever its writer does and whatever calls are made.

The bytes that were pushed are those of the buffers that were written, in order, followed by the
pending ones, and all of them have been counted. The writer has accepted in each attempt the whole
buffer if the attempt succeeded, and else a beginning of it. An attempt is made on all bytes that
are pending then; if it succeeds none is pending any more, even if the writer does not pass them on,
and if it fails they all are. So if the attempts that failed left nothing with the writer, then what
it has accepted and what is pending are just the bytes that were pushed. -/
theorem no_byte_lost_or_reordered (threshold : Nat) (writer : Writer) (calls : List SinkCall) :
    let fresh : OutputSink := { writer, threshold }
    let sink := fresh.after calls
    let made := fresh.attempts calls
    pushedBy calls = writtenBy made ++ sink.pending.toList ∧
    sink.written = (pushedBy calls).length ∧
    sink.writer.accepted.toList = writer.accepted.toList ++ acceptedBy made ∧
    (∀ a ∈ made, a.Honest) ∧
    (∀ call, ∀ a ∈ sink.attemptsOf call,
      a.buffer = sink.pending.toList ++ call.bytes ∧
      (sink.perform call).2.pending.toList = if a.succeeded then [] else a.buffer) ∧
    ((∀ a ∈ made, a.succeeded = false → a.accepted = []) →
      sink.pushed = writer.accepted.toList ++ pushedBy calls) := by
  intro fresh sink made
  have h : Accounts writer.accepted.toList (pushedBy calls) made sink :=
    (Accounts.fresh writer threshold).after calls
  refine ⟨h.kept, h.counted, h.accepted, h.honest, fun call a ha => ?_, fun hnone => ?_⟩
  · exact sink.pending_perform call ha
  · rw [pushed, h.accepted, acceptedBy_eq_writtenBy h.honest hnone, List.append_assoc, ← h.kept]

/-- A writer is interrupted, then broken, then accepts a single byte before the rest, and does not
pass anything on. Of three bytes none is lost. -/
theorem no_byte_lost_or_reordered_of_broken :
    let fresh : OutputSink :=
      { writer := { plan := [.interrupted, .broken, .accepts (some 1)], flushPlan := [.broken] }
        threshold := 2 }
    let calls : List SinkCall := [.push 1, .push 2, .push 3, .flush]
    (∀ a ∈ fresh.attempts calls, a.succeeded = false → a.accepted = []) ∧
      (fresh.after calls).pushed = [1, 2, 3] := by
  intro fresh calls
  have hnone : ∀ a ∈ fresh.attempts calls, a.succeeded = false → a.accepted = [] := by decide
  exact ⟨hnone, (no_byte_lost_or_reordered 2 fresh.writer calls).2.2.2.2.2 hnone⟩

end OutputSink

end TapeMachine

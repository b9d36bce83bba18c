import Mathlib.Tactic
import TapeMachine.Machine.Streams

/-!
# What reaches the writer

The bytes of a program wait in its sink until they are handed over. Whatever blocks they are handed
over in, the bytes that the writer has accepted and those that wait are together the bytes that
were written, as long as nothing fails. A reliable writer is one at which nothing can fail.

## Main definitions

* `TapeMachine.OutputSink.pushed` — the bytes that were written, handed over or not.
* `TapeMachine.Writer.Reliable` — a writer that never fails.

## Main results

* `TapeMachine.Writer.accepted_of_writeAll` — a buffer that is written is accepted whole.
* `TapeMachine.OutputSink.pushed_of_push`, `TapeMachine.OutputSink.pushed_of_flush` — what a sink
  does to the bytes that were written.
* `TapeMachine.OutputSink.exists_push`, `TapeMachine.OutputSink.exists_flush` — a sink over a
  reliable writer does not fail.
-/

set_option autoImplicit false

namespace TapeMachine

/-! ## Writers -/

namespace Writer

variable {w w' : Writer} {buffer : List UInt8}

/-- An attempt at which bytes are accepted adds the first bytes of the buffer. -/
lemma accepted_of_accept {offered count : Nat} (h : w.accept buffer offered = (.ok count, w')) :
    w'.accepted.toList = w.accepted.toList ++ buffer.take count ∧ count ≤ buffer.length := by
  simp only [accept] at h
  split at h
  · cases h
    simp
  · split at h
    · cases h
    · cases h
      simp

/-- What is written without a plan is accepted whole. -/
lemma accepted_of_writeRest (h : w.writeRest buffer = (.ok (), w')) :
    w'.accepted.toList = w.accepted.toList ++ buffer := by
  unfold writeRest at h
  split at h
  · cases h
  · rename_i count w₁ hattempt
    obtain ⟨haccepted, hcount⟩ := accepted_of_accept hattempt
    split at h
    · cases h
    · cases h
      rw [haccepted, List.take_of_length_le (by omega)]

/-- **A buffer that is written is accepted whole**, behind what was accepted before. -/
theorem accepted_of_writeAll (h : w.writeAll buffer = (.ok (), w')) :
    w'.accepted.toList = w.accepted.toList ++ buffer := by
  unfold writeAll at h
  generalize w.plan = plan at h
  fun_induction writeAll.go plan w buffer with
  | case1 plan w =>
    cases h
    simp
  | case2 w buffer _ => exact accepted_of_writeRest (w := { w with plan := [] }) h
  | case3 _ _ _ _ ih => exact ih h
  | case4 | case5 | case6 => cases h
  | case7 w _ _ buffer _ count w₁ _ hattempt ih =>
    rw [ih h, (accepted_of_accept hattempt).1, List.append_assoc, List.take_append_drop]

/-- A request to pass bytes on does not change what was accepted. -/
lemma accepted_flush (w : Writer) : w.flush.2.accepted = w.accepted := by
  unfold flush
  split <;> rfl

end Writer

/-- A reply to an attempt that lets the bytes through sooner or later. -/
def WriteReply.Helpful (reply : WriteReply) : Prop := reply ≠ .broken ∧ reply ≠ .accepts (some 0)

namespace Writer

/-- A writer that never fails: it has room for everything, and nothing that it has planned is a
failure. -/
structure Reliable (w : Writer) : Prop where
  capacity : w.capacity = none
  plan : ∀ reply ∈ w.plan, reply.Helpful
  flushPlan : ∀ reply ∈ w.flushPlan, reply = .done

variable {w : Writer}

/-- With room for everything an attempt accepts what it is offered. -/
lemma accept_of_capacity (h : w.capacity = none) (buffer : List UInt8) (offered : Nat) :
    w.accept buffer offered = (.ok (buffer.take offered).length, { w with
      accepted := w.accepted ++ buffer.take offered
      log := w.log.push (.accepted (buffer.take offered)) }) := by
  simp only [accept, h]

/-- With room for everything a buffer is accepted whole once the plan is used up. -/
lemma writeRest_of_capacity (h : w.capacity = none) (buffer : List UInt8) :
    w.writeRest buffer = (.ok (), { w with
      accepted := w.accepted ++ buffer
      log := w.log.push (.accepted buffer) }) := by
  simp only [writeRest, accept_of_capacity h, List.take_length, Nat.lt_irrefl, if_false]

/-- A helpful reply accepts some of a buffer that is not empty. -/
lemma length_take_ne_zero {atMost : Option Nat} (h : (WriteReply.accepts atMost).Helpful)
    {buffer : List UInt8} (hbuffer : buffer ≠ []) :
    (buffer.take (atMost.getD buffer.length)).length ≠ 0 := by
  have hpos := List.length_pos_iff.mpr hbuffer
  cases atMost with
  | none => simpa using hbuffer
  | some k =>
    have hk : k ≠ 0 := by
      rintro rfl
      exact h.2 rfl
    simp only [Option.getD_some, List.length_take]
    omega

/-- A reliable writer accepts every buffer, and stays reliable. -/
lemma Reliable.exists_writeAll (h : w.Reliable) (buffer : List UInt8) :
    ∃ w', w.writeAll buffer = (.ok (), w') ∧ w'.Reliable := by
  suffices hgo : ∀ (plan : List WriteReply) (w : Writer) (buffer : List UInt8),
      w.capacity = none → (∀ reply ∈ plan, reply.Helpful) →
        ∃ w', writeAll.go plan w buffer = (.ok (), w') ∧ w'.capacity = none ∧
          (∀ reply ∈ w'.plan, reply.Helpful) ∧ w'.flushPlan = w.flushPlan by
    obtain ⟨w', hw', hcapacity, hplan, hflush⟩ := hgo w.plan w buffer h.capacity h.plan
    exact ⟨w', hw', hcapacity, hplan, by rw [hflush]; exact h.flushPlan⟩
  intro plan w buffer hcapacity hplan
  fun_induction writeAll.go plan w buffer with
  | case1 plan w => exact ⟨{ w with plan }, rfl, hcapacity, hplan, rfl⟩
  | case2 w buffer _ =>
    exact ⟨_, writeRest_of_capacity (w := { w with plan := [] }) hcapacity buffer, hcapacity,
      by simp, rfl⟩
  | case3 _ _ _ _ ih =>
    exact ih hcapacity fun reply hr => hplan reply (List.mem_cons_of_mem _ hr)
  | case4 => exact absurd rfl (hplan .broken List.mem_cons_self).1
  | case5 _ _ w buffer _ cause _ hattempt =>
    rw [accept_of_capacity hcapacity] at hattempt
    cases hattempt
  | case6 atMost _ w buffer hbuffer w₁ hattempt =>
    rw [accept_of_capacity hcapacity] at hattempt
    injection hattempt with hcount
    injection hcount with hcount
    exact absurd hcount (length_take_ne_zero (hplan _ List.mem_cons_self) hbuffer)
  | case7 w _ _ buffer _ count w₁ _ hattempt ih =>
    rw [accept_of_capacity hcapacity] at hattempt
    cases hattempt
    exact ih hcapacity fun reply hr => hplan reply (List.mem_cons_of_mem _ hr)

/-- A reliable writer passes bytes on when it is asked to, and stays reliable. -/
lemma Reliable.exists_flush (h : w.Reliable) :
    ∃ w', w.flush = (.ok (), w') ∧ w'.Reliable := by
  have hplan := h.flushPlan
  unfold flush
  split
  · rename_i hflush
    rw [hflush] at hplan
    exact absurd (hplan .broken List.mem_cons_self) (by simp)
  · rename_i hflush
    rw [hflush] at hplan
    exact ⟨_, rfl, h.capacity, h.plan, fun reply hr => hplan reply (List.mem_cons_of_mem _ hr)⟩
  · exact ⟨_, rfl, h.capacity, h.plan, hplan⟩

end Writer

/-! ## Sinks -/

namespace OutputSink

variable {sink sink' : OutputSink}

/-- The bytes that were written to a sink: those that its writer has accepted, and those that
wait. -/
def pushed (sink : OutputSink) : List UInt8 :=
  sink.writer.accepted.toList ++ sink.pending.toList

/-- A hand-over that succeeds leaves no byte waiting, and leaves the bytes that were written as
they are. -/
theorem pushed_of_flush (h : sink.flush = (.ok (), sink')) :
    sink'.pushed = sink.pushed ∧ sink'.pending = #[] ∧ sink'.written = sink.written := by
  unfold flush at h
  split at h
  · cases h
  · rename_i w₁ hwrite
    have haccepted : w₁.flush.2.accepted.toList = sink.pushed := by
      rw [Writer.accepted_flush, Writer.accepted_of_writeAll hwrite]
      rfl
    rcases hflush : w₁.flush with ⟨_, w₂⟩
    rw [hflush] at h haccepted
    cases h
    exact ⟨by rw [← haccepted]; simp [pushed], rfl, rfl⟩

/-- A byte that is written successfully is the last of those that were written. -/
theorem pushed_of_push {byte : UInt8} (h : sink.push byte = (.ok (), sink')) :
    sink'.pushed = sink.pushed ++ [byte] ∧ sink'.written = sink.written + 1 := by
  simp only [push] at h
  split at h
  · obtain ⟨hpushed, -, hwritten⟩ := pushed_of_flush h
    exact ⟨by rw [hpushed]; simp [pushed], hwritten⟩
  · cases h
    simp [pushed]

/-- The bytes of a sink over a reliable writer can be handed over. -/
theorem exists_flush (h : sink.writer.Reliable) :
    ∃ sink', sink.flush = (.ok (), sink') ∧ sink'.writer.Reliable := by
  obtain ⟨w₁, hwrite, hw₁⟩ := h.exists_writeAll sink.pending.toList
  obtain ⟨w₂, hflush, hw₂⟩ := hw₁.exists_flush
  exact ⟨{ sink with writer := w₂, pending := #[] }, by simp only [flush, hwrite, hflush], hw₂⟩

/-- A byte can be written to a sink over a reliable writer. -/
theorem exists_push (h : sink.writer.Reliable) (byte : UInt8) :
    ∃ sink', sink.push byte = (.ok (), sink') ∧ sink'.writer.Reliable := by
  simp only [push]
  split
  · have hpending : OutputSink.writer { sink with
        pending := sink.pending.push byte
        written := sink.written + 1 } |>.Reliable := h
    exact exists_flush hpending
  · exact ⟨_, rfl, h⟩

end OutputSink

end TapeMachine

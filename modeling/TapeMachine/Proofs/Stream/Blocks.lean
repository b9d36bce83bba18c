import Mathlib.Tactic
import TapeMachine.Proofs.Stream.Attempts

/-!
# Output in blocks

A sink hands its bytes over whenever enough of them are pending. Over a writer that never fails
these are blocks of one size: the writer has accepted all blocks that are complete, and the bytes of
the next one are pending. A threshold of zero acts as one, so a block is never empty.

## Main definitions

* `TapeMachine.LongestMultiple` — the longest beginning of some bytes that consists of whole blocks.
* `TapeMachine.Writer.flushes` — how often a writer was asked to pass bytes on.
* `TapeMachine.OutputSink.blockSize` — how many bytes a sink hands over at a time.
* `TapeMachine.OutputSink.InBlocks` — where the bytes are that were pushed onto a sink.

## Main results

* `TapeMachine.longestMultiple_take` — the longest beginning that consists of whole blocks.
* `TapeMachine.OutputSink.InBlocks.push`, `TapeMachine.OutputSink.InBlocks.after` — one byte more,
  and any number of them.
-/

set_option autoImplicit false

namespace TapeMachine

/-! ## Whole blocks -/

/-- Some bytes are the longest beginning of others whose length is a multiple of a size. -/
structure LongestMultiple (size : Nat) (bytes front : List UInt8) : Prop where
  /-- They are a beginning. -/
  initial : front <+: bytes
  /-- They can be divided into blocks of this size. -/
  dvd : size ∣ front.length
  /-- No longer beginning can. -/
  longest : ∀ other, other <+: bytes → size ∣ other.length → other.length ≤ front.length

/-- The number of bytes in the whole blocks of `n` bytes. -/
def wholeBlocks (size n : Nat) : Nat := size * (n / size)

section

variable {size n : Nat}

lemma wholeBlocks_add_mod (size n : Nat) : wholeBlocks size n + n % size = n :=
  Nat.div_add_mod n size

lemma wholeBlocks_le (size n : Nat) : wholeBlocks size n ≤ n := Nat.mul_div_le n size

/-- A byte that completes a block makes all bytes those of whole blocks. -/
lemma div_succ_of_complete (h : n % size + 1 = size) :
    (n + 1) / size = n / size + 1 ∧ wholeBlocks size (n + 1) = n + 1 := by
  have hn := wholeBlocks_add_mod size n
  have hdvd : n + 1 = size * (n / size + 1) := by
    unfold wholeBlocks at hn
    rw [Nat.mul_add, Nat.mul_one]
    omega
  have hquotient : (n + 1) / size = n / size + 1 := by
    rw [hdvd]
    exact Nat.mul_div_cancel_left _ (by omega)
  exact ⟨hquotient, by rw [wholeBlocks, hquotient, ← hdvd]⟩

/-- A byte that does not complete a block leaves the whole blocks as they are. -/
lemma div_succ_of_incomplete (h : n % size + 1 < size) :
    (n + 1) / size = n / size ∧ wholeBlocks size (n + 1) = wholeBlocks size n := by
  have hquotient : (n + 1) / size = n / size := by
    refine Nat.succ_div_of_not_dvd fun hdvd => ?_
    have hmod := Nat.mod_eq_zero_of_dvd hdvd
    rw [Nat.add_mod, Nat.mod_eq_of_lt (show 1 < size by omega), Nat.mod_eq_of_lt h] at hmod
    omega
  exact ⟨hquotient, by rw [wholeBlocks, hquotient, wholeBlocks]⟩

/-- **The bytes of the whole blocks** are the longest beginning that can be divided into blocks. -/
theorem longestMultiple_take (size : Nat) (bytes : List UInt8) :
    LongestMultiple size bytes (bytes.take (wholeBlocks size bytes.length)) where
  initial := List.take_prefix _ _
  dvd := by
    rw [List.length_take_of_le (wholeBlocks_le size _)]
    exact Nat.dvd_mul_right size _
  longest := by
    rintro other hother ⟨blocks, hblocks⟩
    rw [List.length_take_of_le (wholeBlocks_le size _), hblocks]
    have hle := hother.length_le
    rcases Nat.eq_zero_or_pos size with rfl | hsize
    · simp
    · apply Nat.mul_le_mul_left
      rw [Nat.le_div_iff_mul_le hsize, Nat.mul_comm]
      omega

end

/-! ## Requests to pass bytes on -/

/-- Whether an event at a writer is a request to pass bytes on. -/
def WriterEvent.isFlush : WriterEvent → Bool
  | flushed | flushBroken => true
  | _ => false

namespace Writer

variable {w w' : Writer} {buffer : List UInt8}

/-- How often a writer was asked to pass bytes on. -/
def flushes (w : Writer) : Nat := w.log.toList.countP WriterEvent.isFlush

/-- A writer that has only logged something else was not asked once more. -/
lemma flushes_of_log {event : WriterEvent} (h : w'.log = w.log.push event)
    (hevent : event.isFlush = false) : w'.flushes = w.flushes := by
  simp [flushes, h, hevent]

/-- To offer bytes to a writer does not ask it to pass them on. -/
lemma flushes_accept (w : Writer) (buffer : List UInt8) (offered : Nat) :
    (w.accept buffer offered).2.flushes = w.flushes := by
  simp only [accept]
  split
  · exact flushes_of_log rfl rfl
  · split
    · exact flushes_of_log rfl rfl
    · exact flushes_of_log rfl rfl

lemma flushes_writeRest (w : Writer) (buffer : List UInt8) :
    (w.writeRest buffer).2.flushes = w.flushes := by
  have haccept := w.flushes_accept buffer buffer.length
  unfold writeRest
  rcases hattempt : w.accept buffer buffer.length with ⟨_ | count, w₁⟩
  · rw [hattempt] at haccept
    exact haccept
  · rw [hattempt] at haccept
    dsimp only
    split
    · exact (flushes_of_log rfl rfl).trans haccept
    · exact haccept

/-- To write a buffer does not ask the writer to pass it on. -/
lemma flushes_writeAll (w : Writer) (buffer : List UInt8) :
    (w.writeAll buffer).2.flushes = w.flushes := by
  unfold writeAll
  generalize w.plan = plan
  fun_induction writeAll.go plan w buffer with
  | case1 plan w => rfl
  | case2 w buffer _ => exact flushes_writeRest { w with plan := [] } buffer
  | case3 _ _ _ _ ih => exact ih.trans (flushes_of_log rfl rfl)
  | case4 => exact flushes_of_log rfl rfl
  | case5 atMost _ w buffer _ _ _ hattempt | case6 atMost _ w buffer _ _ hattempt =>
    have haccept := w.flushes_accept buffer (atMost.getD buffer.length)
    rw [hattempt] at haccept
    exact haccept
  | case7 atMost _ w buffer _ _ _ _ hattempt ih =>
    have haccept := w.flushes_accept buffer (atMost.getD buffer.length)
    rw [hattempt] at haccept
    exact ih.trans haccept

lemma flushes_flush (w : Writer) : w.flush.2.flushes = w.flushes + 1 := by
  unfold flush
  split <;> simp [flushes, WriterEvent.isFlush]

end Writer

/-! ## Sinks over a writer that never fails -/

namespace OutputSink

variable {sink sink' : OutputSink} {prior pushed : List UInt8} {earlier : Nat}

/-- How many bytes a sink hands over at a time. -/
def blockSize (sink : OutputSink) : Nat := max sink.threshold 1

/-- A hand-over that succeeds delivers all bytes that are pending, and asks once to pass them on. -/
lemma delivered_of_flush (h : sink.flush = (.ok (), sink')) :
    sink'.writer.accepted.toList = sink.pushed ∧ sink'.pending = #[] ∧
      sink'.threshold = sink.threshold ∧ sink'.writer.flushes = sink.writer.flushes + 1 := by
  obtain ⟨hpushed, hpending, -⟩ := pushed_of_flush h
  refine ⟨?_, hpending, ?_⟩
  · rw [← hpushed, OutputSink.pushed, hpending]
    simp
  · have hwrite := sink.writer.flushes_writeAll sink.pending.toList
    unfold flush at h
    split at h
    · cases h
    · rename_i w₁ hattempt
      rw [hattempt] at hwrite
      have hflush := w₁.flushes_flush
      rcases hpass : w₁.flush with ⟨_, w₂⟩
      rw [hpass] at h hflush
      cases h
      exact ⟨rfl, hflush.trans (congrArg (· + 1) hwrite)⟩

/-- Where the bytes are that were pushed onto a sink over a writer that never fails. At first the
writer had accepted the bytes `prior`, and had been asked to pass bytes on `earlier` times. -/
structure InBlocks (size : Nat) (prior : List UInt8) (earlier : Nat) (pushed : List UInt8)
    (sink : OutputSink) : Prop where
  /-- The writer does not fail from here on. -/
  reliable : sink.writer.Reliable
  /-- Blocks of this size are handed over. -/
  blockSize : sink.blockSize = size
  /-- The writer has accepted the blocks that are complete. -/
  accepted : sink.writer.accepted.toList =
    prior ++ pushed.take (wholeBlocks size pushed.length)
  /-- The other bytes are pending. -/
  pending : sink.pending.toList = pushed.drop (wholeBlocks size pushed.length)
  /-- The writer was asked to pass bytes on once for each block. -/
  flushes : sink.writer.flushes = earlier + pushed.length / size

namespace InBlocks

variable {size : Nat}

/-- Nothing has been pushed onto a fresh sink. -/
lemma fresh {writer : Writer} (h : writer.Reliable) (threshold : Nat) :
    InBlocks (max threshold 1) writer.accepted.toList writer.flushes [] { writer, threshold } where
  reliable := h
  blockSize := rfl
  accepted := by simp
  pending := by simp
  flushes := by simp

/-- A block holds at least one byte. -/
lemma size_pos (h : InBlocks size prior earlier pushed sink) : 0 < size := by
  rw [← h.blockSize]
  exact Nat.le_max_right sink.threshold 1

/-- The pending bytes are those behind the blocks. -/
lemma size_pending (h : InBlocks size prior earlier pushed sink) :
    sink.pending.size = pushed.length % size := by
  rw [← Array.length_toList, h.pending, List.length_drop]
  have hn := wholeBlocks_add_mod size pushed.length
  omega

/-- What has been accepted since the beginning and what is pending are the bytes pushed. -/
lemma pushed_eq (h : InBlocks size prior earlier pushed sink) : sink.pushed = prior ++ pushed := by
  rw [OutputSink.pushed, h.accepted, h.pending, List.append_assoc, List.take_append_drop]

/-- **The writer has accepted the longest beginning that consists of whole blocks**, and what is
behind it is pending. -/
theorem exists_front (h : InBlocks size prior earlier pushed sink) :
    ∃ front, sink.writer.accepted.toList = prior ++ front ∧ LongestMultiple size pushed front ∧
      front ++ sink.pending.toList = pushed := by
  refine ⟨_, h.accepted, longestMultiple_take size pushed, ?_⟩
  rw [h.pending, List.take_append_drop]

/-- Nothing is pending exactly if the bytes fill whole blocks. -/
lemma pending_eq_empty_iff (h : InBlocks size prior earlier pushed sink) :
    sink.pending = #[] ↔ size ∣ pushed.length := by
  rw [← Array.size_eq_zero_iff, h.size_pending, Nat.dvd_iff_mod_eq_zero]

/-- The bytes are handed over exactly when one more completes a block. -/
lemma full_iff (h : InBlocks size prior earlier pushed sink) (byte : UInt8) :
    sink.threshold ≤ (sink.collect byte).pending.size ↔ pushed.length % size + 1 = size := by
  have hlt := Nat.mod_lt pushed.length h.size_pos
  have hsize : max sink.threshold 1 = size := h.blockSize
  have hcollect : (sink.collect byte).pending.size = pushed.length % size + 1 := by
    rw [← h.size_pending]
    exact Array.size_push byte
  rw [hcollect]
  omega

/-- **One byte more** is pending until it completes a block, which is then handed over. -/
theorem push (h : InBlocks size prior earlier pushed sink) (byte : UInt8) :
    ∃ sink', sink.push byte = (.ok (), sink') ∧
      InBlocks size prior earlier (pushed ++ [byte]) sink' := by
  have hlength : (pushed ++ [byte]).length = pushed.length + 1 := by simp
  have hcollect : (sink.collect byte).pushed = prior ++ (pushed ++ [byte]) := by
    rw [← List.append_assoc, ← h.pushed_eq]
    simp [OutputSink.pushed, collect]
  by_cases hfull : pushed.length % size + 1 = size
  · obtain ⟨hquotient, hwhole⟩ := div_succ_of_complete hfull
    have hreliable : (sink.collect byte).writer.Reliable := h.reliable
    obtain ⟨sink', hflush, hreliable'⟩ := exists_flush hreliable
    obtain ⟨haccepted, hpending, hthreshold, hflushes⟩ := delivered_of_flush hflush
    refine ⟨sink', by rw [push_eq, if_pos ((h.full_iff byte).mpr hfull), hflush], ?_⟩
    exact
      { reliable := hreliable'
        blockSize := by
          rw [OutputSink.blockSize, hthreshold]
          exact h.blockSize
        accepted := by
          rw [haccepted, hcollect, hlength, hwhole, ← hlength, List.take_length]
        pending := by
          rw [hpending, hlength, hwhole, ← hlength, List.drop_length]
        flushes := by
          rw [hflushes, hlength, hquotient, ← Nat.add_assoc, ← h.flushes]
          rfl }
  · have hlt := Nat.mod_lt pushed.length h.size_pos
    have hincomplete : pushed.length % size + 1 < size := by omega
    obtain ⟨hquotient, hwhole⟩ := div_succ_of_incomplete hincomplete
    refine ⟨sink.collect byte, by rw [push_eq, if_neg (mt (h.full_iff byte).mp hfull)], ?_⟩
    have hle := wholeBlocks_le size pushed.length
    exact
      { reliable := h.reliable
        blockSize := h.blockSize
        accepted := by
          rw [hlength, hwhole, List.take_append_of_le_length hle]
          exact h.accepted
        pending := by
          rw [hlength, hwhole, List.drop_append_of_le_length hle, ← h.pending]
          exact Array.toList_push
        flushes := by
          rw [hlength, hquotient]
          exact h.flushes }

/-- **Any number of bytes** is divided into blocks in the same way.

**Proof sketch.** Induction on the bytes, from the blocks in front of them. -/
theorem after (h : InBlocks size prior earlier pushed sink) (bytes : List UInt8) :
    InBlocks size prior earlier (pushed ++ bytes) (sink.after (bytes.map .push)) := by
  induction bytes generalizing pushed sink with
  | nil =>
    rw [List.append_nil]
    exact h
  | cons byte bytes ih =>
    obtain ⟨sink', hpush, h'⟩ := h.push byte
    have hperform : (sink.perform (.push byte)).2 = sink' := congrArg Prod.snd hpush
    have hrest := ih h'
    rw [List.append_assoc] at hrest
    rw [List.map_cons, OutputSink.after, hperform]
    exact hrest

end InBlocks

end OutputSink

end TapeMachine

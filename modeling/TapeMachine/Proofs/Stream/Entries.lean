import Mathlib.Tactic
import TapeMachine.Machine.Streams

/-!
# The entries of an input

A program sees of its reader one entry for each byte, each end of the input and each failure, in
order, and no end of them: behind the last event every read finds the input at its end, or fails. A
byte is a genuine entry; for every other one the program reads a zero.

## Main definitions

* `TapeMachine.ReadEvent.entry?`, `TapeMachine.ReadEvent.byte?` — what an event gives to a program.
* `TapeMachine.Reader.entries`, `TapeMachine.Reader.bytes` — what the events give.
* `TapeMachine.Reader.entry` — what a read finds, by its number.
* `TapeMachine.Reader.after` — what some reads leave of a reader.
* `TapeMachine.Reader.Agree` — readers that a program cannot tell apart by its first reads.

## Main results

* `TapeMachine.InputSource.readByte_eq` — one read.
* `TapeMachine.Reader.entry_after` — what is found behind some reads.
* `TapeMachine.Reader.filterMap_entry_range` — the genuine entries are the bytes, in order.
-/

set_option autoImplicit false

namespace TapeMachine

/-- What an event gives to a program: a byte, or a zero in place of one. An interrupted call gives
nothing, as it is repeated. -/
def ReadEvent.entry? : ReadEvent → Option (Option UInt8)
  | byte b => some (some b)
  | eof | failed _ => some none
  | interrupted => none

/-- The byte that an event gives. -/
def ReadEvent.byte? : ReadEvent → Option UInt8
  | byte b => some b
  | eof | failed _ | interrupted => none

/-- The byte that a read gives. -/
def Received.byte? : Received → Option UInt8
  | byte b => some b
  | eof | failed _ => none

namespace Reader

/-- What the events of a reader give to a program. -/
def entries (r : Reader) : List (Option UInt8) := r.events.filterMap ReadEvent.entry?

/-- The bytes among the events of a reader. -/
def bytes (r : Reader) : List UInt8 := r.events.filterMap ReadEvent.byte?

/-- What the read with this number finds, counted from zero. It is none where the program reads a
zero in place of a byte. -/
def entry (r : Reader) (n : Nat) : Option UInt8 := (r.entries[n]?).join

/-- What a number of reads leaves of a reader. -/
def after (r : Reader) (n : Nat) : Reader := (fun r => r.next.2)^[n] r

/-- A number of reads finds the same in two readers: the same bytes, and zeros in place of bytes at
the same times. -/
def Agree (n : Nat) (r r' : Reader) : Prop := ∀ k < n, r.entry k = r'.entry k

variable (r : Reader)

/-- **A read finds the first entry**, and leaves the others. -/
lemma next_eq_entries :
    r.next.1.byte? = r.entries.head?.join ∧ r.next.2.entries = r.entries.tail := by
  have hgo : ∀ events : List ReadEvent,
      (next.go r events).1.byte? = (events.filterMap ReadEvent.entry?).head?.join ∧
        (next.go r events).2.entries = (events.filterMap ReadEvent.entry?).tail := by
    intro events
    induction events with
    | nil =>
      refine ⟨?_, rfl⟩
      simp only [next.go, exhausted]
      split <;> rfl
    | cons event rest ih =>
      cases event with
      | byte b | eof | failed cause => exact ⟨rfl, rfl⟩
      | interrupted => exact ih
  exact hgo r.events

/-- A read finds the first entry. -/
lemma byte?_next : r.next.1.byte? = r.entry 0 := by
  rw [r.next_eq_entries.1, entry, List.head?_eq_getElem?]

/-- A read leaves the entries behind the first one. -/
lemma entry_next (n : Nat) : r.next.2.entry n = r.entry (n + 1) := by
  rw [entry, r.next_eq_entries.2, List.getElem?_tail, entry]

/-- One read more. -/
lemma after_succ (n : Nat) : r.after (n + 1) = (r.after n).next.2 :=
  Function.iterate_succ_apply' _ n r

/-- Some reads, and then more. -/
lemma after_add (n k : Nat) : r.after (n + k) = (r.after n).after k := by
  rw [after, Nat.add_comm, Function.iterate_add_apply]
  rfl

/-- **What is found behind some reads** are the entries behind as many. -/
theorem entry_after (k n : Nat) : (r.after k).entry n = r.entry (k + n) := by
  induction k generalizing n with
  | zero => rw [Nat.zero_add]; rfl
  | succ k ih =>
    rw [after_succ, entry_next, ih, Nat.add_right_comm]
    rfl

/-- Readers that agree still do so behind some of the reads. -/
lemma Agree.after {r r' : Reader} {n k : Nat} (h : Agree (n + k) r r') :
    Agree k (r.after n) (r'.after n) := by
  intro i hi
  rw [entry_after, entry_after]
  exact h _ (by omega)

/-- Readers that agree do so in fewer reads. -/
lemma Agree.mono {r r' : Reader} {n k : Nat} (h : Agree n r r') (hle : k ≤ n) : Agree k r r' :=
  fun i hi => h i (hi.trans_le hle)

/-- The entries that are found by some reads are the first ones, apart from those behind all
events. -/
lemma filterMap_entry_range_eq (k : Nat) :
    (List.range k).filterMap r.entry = (r.entries.take k).filterMap id := by
  induction k with
  | zero => rfl
  | succ k ih =>
    rw [List.range_succ, List.filterMap_append, ih, List.take_add_one, List.filterMap_append]
    congr 1
    rcases hk : r.entries[k]? with _ | _ | b <;> simp [entry, hk]

/-- The bytes are the genuine entries. -/
lemma filterMap_entries : r.entries.filterMap id = r.bytes := by
  rw [entries, List.filterMap_filterMap, bytes]
  congr 1
  funext event
  cases event <;> rfl

/-- **The genuine entries among the first ones are the first bytes**, in order. -/
theorem filterMap_entry_range (k : Nat) :
    (List.range k).filterMap r.entry =
      r.bytes.take ((List.range k).countP fun n => (r.entry n).isSome) := by
  have hprefix : (List.range k).filterMap r.entry <+: r.bytes := by
    rw [filterMap_entry_range_eq, ← filterMap_entries]
    exact (List.take_prefix k r.entries).filterMap id
  rw [← List.length_filterMap_eq_countP]
  exact List.prefix_iff_eq_take.mp hprefix

end Reader

/-- **One read of a program's input**: the first entry, or a zero, and a byte is counted. -/
theorem InputSource.readByte_eq (source : InputSource) :
    source.readByte =
      ((source.reader.entry 0).getD 0,
        ⟨source.reader.next.2,
          source.consumed + if (source.reader.entry 0).isSome then 1 else 0⟩) := by
  rw [← Reader.byte?_next, readByte]
  rcases source.reader.next with ⟨_ | _ | _, reader⟩ <;> rfl

end TapeMachine

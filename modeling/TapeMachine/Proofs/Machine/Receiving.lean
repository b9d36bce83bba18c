import Mathlib.Tactic
import TapeMachine.Proofs.Machine.Placement
import TapeMachine.Proofs.Machine.Reading
import TapeMachine.Proofs.Stream.Entries

/-!
# Machines and their input

Each input that a machine executes makes one read, and stores what it finds. Nothing else that a
machine does reads, so that a machine over another reader does the same as long as its reads find
the same.

## Main definitions

* `TapeMachine.Machine.received` — the bytes that the inputs of a walk have stored.
* `TapeMachine.Machine.Receives` — a machine has read some bytes on its way to another one.
* `TapeMachine.Machine.readCount` — the number of reads that the next step makes.

## Main results

* `TapeMachine.Machine.Walk.receives` — what a walk reads.
* `TapeMachine.Machine.next_withReader_of_agree`, `TapeMachine.Machine.Walk.withReader` — single
  steps and walks over another reader.
-/

set_option autoImplicit false

namespace TapeMachine

namespace Machine

variable {m m' m₁ : Machine} {i : Instruction} {bytes bytes' : List UInt8} {reader : Reader}

/-! ## What machines read -/

/-- The bytes that the inputs among some steps have stored. -/
def received (steps : List Step) : List UInt8 :=
  steps.flatMap fun step => if step.instruction = .input then [step.cell] else []

/-- On the way from one machine to another some bytes were read: the entries of the reader, and
zeros where it had no bytes to give. -/
structure Receives (m : Machine) (bytes : List UInt8) (m' : Machine) : Prop where
  /-- The bytes are what the reads have found, in order. -/
  stored : bytes = (List.range bytes.length).map fun n => (m.input.reader.entry n).getD 0
  /-- The reader has been read as often. -/
  reader : m'.input.reader = m.input.reader.after bytes.length
  /-- The genuine bytes among them have been counted. -/
  consumed : m'.input.consumed =
    m.input.consumed +
      (List.range bytes.length).countP fun n => (m.input.reader.entry n).isSome

namespace Receives

/-- Where the input is as it was nothing was read. -/
lemma of_input_eq (h : m'.input = m.input) : Receives m [] m' where
  stored := rfl
  reader := congrArg InputSource.reader h
  consumed := congrArg InputSource.consumed h

/-- One read. -/
lemma of_readByte (h : m'.input = m.input.readByte.2) :
    Receives m [m.input.readByte.1] m' := by
  rw [InputSource.readByte_eq] at h ⊢
  refine ⟨rfl, congrArg InputSource.reader h, ?_⟩
  rw [h, List.length_singleton, List.range_one, List.countP_singleton]

/-- What is read later is read behind what was read before. -/
lemma trans (h : Receives m bytes m₁) (h' : Receives m₁ bytes' m') :
    Receives m (bytes ++ bytes') m' := by
  have hentry : ∀ n, m₁.input.reader.entry n = m.input.reader.entry (bytes.length + n) := by
    intro n
    rw [h.reader, Reader.entry_after]
  refine ⟨?_, ?_, ?_⟩
  · rw [List.length_append, List.range_add, List.map_append, List.map_map, ← h.stored]
    conv_lhs => rw [h'.stored]
    simp only [hentry, Function.comp_def]
  · rw [h'.reader, h.reader, ← Reader.after_add, List.length_append]
  · rw [h'.consumed, h.consumed, List.length_append, List.range_add, List.countP_append,
      List.countP_map, Nat.add_assoc]
    simp only [hentry, Function.comp_def]

end Receives

/-- An instruction that is no input leaves the input as it is. -/
lemma input_execute (hi : i ≠ .input) : (m.execute i).2.input = m.input := by
  cases i with
  | input => exact absurd rfl hi
  | loopOpen | loopClose => rfl
  | right | left | incr | decr | output =>
    simp only [execute, moveTo, updateCell, emit, advanceFrom]
    split <;> rfl

/-- The end of a run leaves the input as it is. -/
lemma input_finish (m : Machine) : m.finish.2.input = m.input := by
  unfold finish
  split <;> rfl

/-- An input that succeeds makes one read, and stores what it finds. -/
lemma receives_of_execute_input (h : m.execute .input = (.ok (), m')) :
    Receives m [m'.cell] m' := by
  simp only [execute, receive, updateCell] at h
  split at h
  · cases h
  · cases h
    have hcell : ((m.tape.extend m.dp).modify m.dp fun _ => m.input.readByte.1).read m.dp =
        m.input.readByte.1 := by
      rw [Tape.read_modify _ (Tape.shortfall_extend_self _ _), if_pos rfl]
    simp only [cell, advanceFrom, hcell]
    exact .of_readByte rfl

/-- A single step reads exactly if it is an input. -/
lemma receives_of_next {report : Step} (h : m.next = (.ok report, m')) :
    Receives m (received [report]) m' := by
  obtain ⟨-, i, -, he, rfl⟩ := next_eq_ok_iff.mp h
  by_cases hi : i = .input
  · subst hi
    exact receives_of_execute_input he
  · have hkept := input_execute (m := m) hi
    rw [he] at hkept
    have hnone : received [⟨m.pc, i, m'.pc, m'.dp, m'.cell⟩] = [] := by simp [received, hi]
    rw [hnone]
    exact .of_input_eq hkept

/-- One list of steps after another. -/
lemma received_append (steps steps' : List Step) :
    received (steps ++ steps') = received steps ++ received steps' := List.flatMap_append

/-- **What a walk reads** is what its inputs store.

**Proof sketch.** Induction on the walk. -/
theorem Walk.receives {steps : List Step} (h : Walk m steps m') :
    Receives m (received steps) m' := by
  induction h with
  | nil => exact .of_input_eq rfl
  | @cons _ _ _ report steps h _ ih =>
    rw [← List.singleton_append, received_append]
    exact (receives_of_next h).trans ih

/-! ## Machines over another reader -/

/-- The number of reads that the next step of a machine makes. -/
def readCount (m : Machine) : Nat :=
  if m.finished = false ∧ m.instruction? = some .input then 1 else 0

/-- Where the next instruction is no input the next step does not read. -/
lemma readCount_of_ne (h : m.instruction? ≠ some .input) : m.readCount = 0 :=
  if_neg fun hr => h hr.2

/-- A step that succeeds reads as often as its report tells. -/
lemma readCount_of_next {report : Step} (h : m.next = (.ok report, m')) :
    m.readCount = (received [report]).length := by
  obtain ⟨hf, i, hi, -, rfl⟩ := next_eq_ok_iff.mp h
  simp only [readCount, hf, hi, Option.some.injEq, true_and, received, List.flatMap_cons,
    List.flatMap_nil, List.append_nil]
  split <;> rfl

/-- An input that a machine comes upon does not fail. -/
lemma ne_input_of_error (hm : m.Placed) (hi : m.instruction? = some i) {fault : Fault}
    (he : m.execute i = (.error fault, m')) : i ≠ .input := by
  rintro rfl
  obtain ⟨m₁, hok, -⟩ := hm.exists_execute hi rfl
  rw [hok] at he
  cases he

/-- A step that fails does not read. -/
lemma readCount_of_next_error (hm : m.Placed) {fault : Fault} (h : m.next = (.error fault, m')) :
    m.readCount = 0 := by
  rcases next_eq_error_iff.mp h with ⟨hend | hi, -, -⟩ | ⟨-, i, hi, he⟩
  · exact if_neg fun hr => by simp [hend] at hr
  · exact readCount_of_ne (by simp [hi])
  · exact readCount_of_ne (by simpa [hi] using ne_input_of_error hm hi he)

/-- An input sees no more of the reader than the entry that it finds. -/
lemma execute_input_of_entry (h : m.input.reader.entry 0 = reader.entry 0) :
    (m.withReader reader).execute .input =
      ((m.execute .input).1, (m.execute .input).2.withReader reader.next.2) := by
  simp only [execute, receive, withReader, InputSource.readByte_eq, h, updateCell]
  split <;> rfl

/-- **A single step over another reader** is the same if it finds the same when it reads. -/
theorem next_withReader_of_agree (h : m.input.reader.Agree m.readCount reader) :
    (m.withReader reader).next = (m.next.1, m.next.2.withReader (reader.after m.readCount)) := by
  cases hf : m.finished with
  | true =>
    have hreads : m.readCount = 0 := if_neg (by simp [hf])
    have hf' : (m.withReader reader).finished = true := hf
    simp only [next, hf, hf', hreads]
    rfl
  | false =>
    cases hi : m.instruction? with
    | none =>
      have hf' : (m.withReader reader).finished = false := hf
      have hi' : (m.withReader reader).instruction? = none := hi
      rw [readCount_of_ne (by simp [hi])]
      simp only [next, hf, hf', hi, hi']
      rfl
    | some i =>
      refine next_withReader hf hi ?_
      by_cases hin : i = .input
      · subst hin
        have hreads : m.readCount = 1 := if_pos ⟨hf, hi⟩
        rw [hreads] at h ⊢
        exact execute_input_of_entry (h 0 Nat.one_pos)
      · rw [readCount_of_ne (by simpa [hi] using hin)]
        exact execute_withReader hin reader

/-- Where a run ends it ends over another reader too. -/
lemma advance_withReader_of_ended (hm : m.Placed) {r : Except Fault Stats}
    (h : m.advance = .ended r m') (reader : Reader) :
    (m.withReader reader).advance = .ended r (m'.withReader reader) := by
  rcases advance_eq_ended_iff.mp h with ⟨hi, hfinish⟩ | ⟨i, fault, hi, he, rfl⟩
  · refine advance_eq_ended_iff.mpr (Or.inl ⟨hi, ?_⟩)
    rw [finish_withReader, hfinish]
  · refine advance_eq_ended_iff.mpr (Or.inr ⟨i, fault, hi, ?_, rfl⟩)
    rw [execute_withReader (ne_input_of_error hm hi he), he]

/-- **A walk over another reader** is the same if its inputs find the same.

**Proof sketch.** Induction on the walk. What the readers give behind the first step they still give
alike. -/
theorem Walk.withReader {steps : List Step} (h : Walk m steps m')
    (hagree : m.input.reader.Agree (received steps).length reader) :
    Walk (m.withReader reader) steps (m'.withReader (reader.after (received steps).length)) := by
  induction h generalizing reader with
  | nil => exact .nil _
  | @cons m m₁ m' report steps h rest ih =>
    rw [← List.singleton_append, received_append, List.length_append] at hagree ⊢
    have hreads := readCount_of_next h
    have hfirst : m.input.reader.Agree m.readCount reader :=
      hreads ▸ hagree.mono (Nat.le_add_right _ _)
    have hnext := next_withReader_of_agree hfirst
    rw [h, hreads] at hnext
    have hagree' := hagree.after
    rw [← (receives_of_next h).reader] at hagree'
    rw [Reader.after_add]
    exact .cons hnext (ih hagree')

end Machine

end TapeMachine

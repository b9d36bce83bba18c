import Mathlib.Tactic
import TapeMachine.Proofs.Debug.LifeCycle
import TapeMachine.Proofs.Machine.Receiving

/-!
# The order of the input

However a machine is driven, its inputs read the entries of its reader in order, each of them once
and none ahead of its turn. So it makes no difference what a reader has to give behind the entries
that have been read.

## Main definitions

* `TapeMachine.Session.withReader` — a session whose machine has another reader.
* `TapeMachine.Calls.Trace` — calls one after another, up to a moment in the course of a further
  one, with all instructions that have been executed.
* `TapeMachine.Calls.InputRead` — what has been read at such a moment.

## Main results

* `TapeMachine.Session.step_withReader`, `TapeMachine.Session.emits_withReader` — sessions over
  another reader.
* `TapeMachine.Call.Returns.exists_withReader` — calls over another reader.
* `TapeMachine.Calls.Trace.receives`, `TapeMachine.Calls.Trace.withReader` — all this of calls one
  after another.
* `TapeMachine.Calls.input_is_read_in_order` — what is read at every moment, and that only this
  matters.
-/

set_option autoImplicit false

namespace TapeMachine

open Machine

/-! ## Sessions -/

namespace Session

/-- A session whose machine has another reader. -/
def withReader (s : Session) (reader : Reader) : Session :=
  { s with machine := s.machine.withReader reader }

/-- The report of the instruction that the next step executes, in a list that is empty if it
executes none. -/
def reports (s : Session) : List Step := s.report?.toList

/-- The number of reads that the next step of a session makes. -/
def readCount (s : Session) : Nat :=
  match s.phase with
  | .executing _ => s.machine.readCount
  | .asking _ => 0

variable {s s' : Session} {reader : Reader} {r : Except Fault Exit}

/-- A step of a session reads as often as its report tells. -/
lemma readCount_eq (hm : s.machine.Placed) : s.readCount = (received s.reports).length := by
  cases hp : s.phase with
  | asking report =>
    simp only [readCount, hp, reports, report?]
    rfl
  | executing suspending =>
    rcases hnext : s.machine.next with ⟨fault | report, m⟩
    · simp only [readCount, hp, reports, report?, hnext, readCount_of_next_error hm hnext]
      rfl
    · simp only [readCount, hp, reports, report?, hnext, readCount_of_next hnext,
        Option.toList_some]

/-- A step over another reader executes the same instruction, if it finds the same when it reads. -/
lemma reports_withReader (h : s.machine.input.reader.Agree s.readCount reader) :
    (s.withReader reader).reports = s.reports := by
  cases hp : s.phase with
  | asking report => simp only [reports, report?, withReader, hp]
  | executing suspending =>
    simp only [readCount, hp] at h
    simp only [reports, report?, withReader, hp, next_withReader_of_agree h]
    rcases s.machine.next with ⟨_ | _, m⟩ <;> rfl

/-- A session over another reader ends alike, if it finds the same when it reads. -/
lemma returned_withReader (h : s.machine.input.reader.Agree s.readCount reader) :
    (s.withReader reader).returned r = s.returned r := by
  have hturn : (s.withReader reader).operatorsTurn = s.operatorsTurn := by
    cases hp : s.phase with
    | asking report => simp only [operatorsTurn, withReader, hp]
    | executing suspending =>
      simp only [readCount, hp] at h
      simp only [operatorsTurn, withReader, hp, next_withReader_of_agree h]
      rcases s.machine.next with ⟨_ | _, m⟩ <;> rfl
  unfold returned
  rw [hturn]

/-- A session that executes does the same over another reader, if it finds the same when it reads.
-/
lemma advance_withReader (h : s.machine.input.reader.Agree s.machine.readCount reader)
    (suspending : Bool) :
    (s.withReader reader).advance suspending =
      (s.advance suspending).map (·.withReader (reader.after s.machine.readCount)) := by
  have hsame : (s.withReader reader).machine.instruction? = s.machine.instruction? := rfl
  unfold advance
  rewrite [hsame]
  cases hi : s.machine.instruction? with
  | none =>
    rw [readCount_of_ne (by simp [hi])]
    simp only [withReader, finish_withReader]
    rcases s.machine.finish with ⟨_ | _, m⟩ <;> rfl
  | some i =>
    simp only [withReader, next_withReader_of_agree h]
    rcases s.machine.next with ⟨_ | report, m⟩
    · rfl
    · cases suspending with
      | false => rfl
      | true =>
        simp only [if_true]
        rcases s.debugger.announce report with ⟨_ | _, d⟩ <;> rfl

/-- **A step of a session over another reader** is the same if it finds the same when it reads. The
operator's lines do not come from this reader. -/
theorem step_withReader (hw : s.wiring = .separate)
    (h : s.machine.input.reader.Agree s.readCount reader) :
    (s.withReader reader).step = s.step.map (·.withReader (reader.after s.readCount)) := by
  cases hf : s.machine.finished with
  | true =>
    have hf' : (s.withReader reader).machine.finished = true := hf
    have hreads : s.readCount = 0 := by
      unfold readCount
      split
      · exact if_neg (by simp [hf])
      · rfl
    simp only [step, hf, hf', if_true, hreads]
    rfl
  | false =>
    cases hp : s.phase with
    | executing suspending =>
      simp only [readCount, hp] at h
      rw [step_of_executing hf hp, step_of_executing (s := s.withReader reader) hf hp,
        advance_withReader h]
      simp only [readCount, hp]
    | asking report =>
      have hsame : (s.withReader reader).machine.tape = s.machine.tape := rfl
      rw [step_of_asking hf hw hp, step_of_asking (s := s.withReader reader) hf hw hp, hsame]
      simp only [readCount, hp, withReader]
      rcases s.debugger.answer report.dp s.machine.tape with ⟨⟨_ | _ | _⟩ | _ | _, d⟩ <;> rfl

/-- What a session reaches lies on a walk, whose steps are the instructions that were executed. -/
lemma walk_of_emits {steps : List Step} (hw : s.wiring = .separate)
    (h : Progress.Emits Session.step reports s steps s') :
    Walk s.machine steps s'.machine ∧ s'.wiring = .separate := by
  induction h with
  | refl s => exact ⟨.nil _, hw⟩
  | running h _ ih =>
    obtain ⟨hw₁, hfirst⟩ := machine_of_running hw h
    obtain ⟨hwalk, hw'⟩ := ih hw₁
    exact ⟨hfirst.append hwalk, hw'⟩

/-- **A session over another reader** goes the same way if its inputs find the same.

**Proof sketch.** Induction on the steps of the session. What the readers give behind the first step
they still give alike. -/
theorem emits_withReader {steps : List Step} (hw : s.wiring = .separate) (hm : s.machine.Placed)
    (h : Progress.Emits Session.step reports s steps s')
    (hagree : s.machine.input.reader.Agree (received steps).length reader) :
    Progress.Emits Session.step reports (s.withReader reader) steps
      (s'.withReader (reader.after (received steps).length)) := by
  induction h generalizing reader with
  | refl s => exact .refl _
  | @running s s₁ s' later h rest ih =>
    obtain ⟨hw₁, hfirst⟩ := machine_of_running hw h
    rw [received_append, List.length_append] at hagree ⊢
    have hreads := readCount_eq hm
    have hfront : s.machine.input.reader.Agree s.readCount reader :=
      hreads ▸ hagree.mono (Nat.le_add_right _ _)
    have hstep := step_withReader hw hfront
    rw [h] at hstep
    have hagree' := hagree.after
    rw [← hreads] at hagree' ⊢
    have hreader : s₁.machine.input.reader = s.machine.input.reader.after s.readCount :=
      hreads ▸ hfirst.receives.reader
    rw [← hreader] at hagree'
    rw [Reader.after_add, ← reports_withReader hfront]
    exact .running hstep (ih hw₁ (hfirst.travels hm).placed hagree')

/-- A session over another reader goes the same way and makes the same step then, if its inputs find
the same. -/
lemma emits_and_step_withReader {steps : List Step} (hw : s.wiring = .separate)
    (hm : s.machine.Placed) (h : Progress.Emits Session.step reports s steps s')
    (hagree : s.machine.input.reader.Agree (received (steps ++ s'.reports)).length reader) :
    Progress.Emits Session.step reports (s.withReader reader) steps
        (s'.withReader (reader.after (received steps).length)) ∧
      (∀ r, (s'.withReader (reader.after (received steps).length)).returned r = s'.returned r) ∧
      (s'.withReader (reader.after (received steps).length)).step =
        s'.step.map (·.withReader (reader.after (received (steps ++ s'.reports)).length)) := by
  obtain ⟨hwalk, hw'⟩ := walk_of_emits hw h
  have hreads := readCount_eq (hwalk.travels hm).placed
  rw [received_append, List.length_append, ← hreads] at hagree ⊢
  have hagree' := hagree.after
  rw [← hwalk.receives.reader] at hagree'
  rw [Reader.after_add]
  exact ⟨emits_withReader hw hm h (hagree.mono (Nat.le_add_right _ _)),
    fun r => returned_withReader hagree', step_withReader hw' hagree'⟩

end Session

/-! ## Calls -/

variable {m m' m₁ : Machine} {call : Call} {returned : Returned} {calls : List (Call × Returned)}
  {steps : List Step} {reader : Reader}

namespace Machine.Concludes

/-- What concludes a call reads nothing. -/
lemma input_eq (h : Concludes m returned m') (hm : m.Placed) : m'.input = m.input := by
  cases h with
  | step | lost | nothing | quit => rfl
  | fails _ hi he =>
    have hkept := input_execute (m := m) (ne_input_of_error hm hi he)
    rwa [he] at hkept
  | flushFails _ _ h | completed _ _ h =>
    have hkept := m.input_finish
    rwa [h] at hkept

/-- What concludes a call executes nothing that succeeds. -/
lemma executed_eq (h : Concludes m returned m') : m'.executed = m.executed := by
  cases h with
  | step | lost | nothing | quit => rfl
  | fails _ _ he =>
    rw [place_of_error he]
    rfl
  | flushFails _ _ h | completed _ _ h => exact (finish_frame h).2.2

/-- What concludes a call concludes it over any other reader. -/
lemma withReader (h : Concludes m returned m') (hm : m.Placed) (reader : Reader) :
    Concludes (m.withReader reader) returned (m'.withReader reader) := by
  have hfinish : ∀ {r}, m.finish = (r, m') →
      (m.withReader reader).finish = (r, m'.withReader reader) := by
    rintro r h
    rw [finish_withReader, h]
  cases h with
  | step => exact .step _ _
  | lost => exact .lost _ _
  | nothing h => exact .nothing h
  | fails hf hi he =>
    refine .fails hf hi ?_
    rw [execute_withReader (ne_input_of_error hm hi he), he]
  | flushFails hf hi h => exact .flushFails hf hi (hfinish h)
  | completed hf hi h => exact .completed hf hi (hfinish h)
  | quit hf => exact .quit hf

end Machine.Concludes

/-- A single step that fails does so over another reader too. -/
lemma Call.Returns.exists_withReader_of_stepFails (hm : m.Placed) {fault : Fault}
    (h : m.next = (.error fault, m')) :
    Concludes m (.failed fault) m' ∧ ∀ reader,
      Call.next.Returns (m.withReader reader) (.failed fault) (m'.withReader reader) := by
  constructor
  · rcases next_eq_error_iff.mp h with ⟨hend, rfl, rfl⟩ | ⟨hf, i, hi, he⟩
    · exact .nothing hend
    · exact .fails hf hi he
  · intro reader
    have hreads := readCount_of_next_error hm h
    have hagree : m.input.reader.Agree m.readCount reader := by
      rw [hreads]
      exact fun k hk => absurd hk (Nat.not_lt_zero k)
    have hnext := next_withReader_of_agree hagree
    rw [h, hreads] at hnext
    exact .stepFails hnext

/-- **A call over another reader** returns the same if its inputs find the same. -/
theorem Call.Returns.exists_withReader (h : call.Returns m returned m') (hm : m.Placed) :
    ∃ steps m₁, Walk m steps m₁ ∧ Concludes m₁ returned m' ∧ ∀ reader,
      m.input.reader.Agree (received steps).length reader →
      call.Returns (m.withReader reader) returned
        (m'.withReader (reader.after (received steps).length)) := by
  cases hf : m.finished with
  | true =>
    obtain ⟨rfl, rfl⟩ := (Call.returns_iff_of_finished hf).mp h
    exact ⟨[], m', .nil m', .nothing (Or.inl hf), fun reader _ =>
      (Call.returns_iff_of_finished (m := m'.withReader reader) hf).mpr ⟨rfl, rfl⟩⟩
  | false =>
    have hrun : ∀ {r : Except Fault Stats}, m.RunsTo r m' → ∃ steps m₁, Walk m steps m₁ ∧
        m₁.advance = .ended r m' ∧ ∀ reader,
        m.input.reader.Agree (received steps).length reader →
        (m.withReader reader).RunsTo r
          (m'.withReader (reader.after (received steps).length)) := by
      intro r h
      obtain ⟨steps, m₁, hwalk, hend⟩ := (runsTo_iff_walk hf).mp h
      refine ⟨steps, m₁, hwalk, hend, fun reader hagree => ?_⟩
      refine (runsTo_iff_walk (m := m.withReader reader) hf).mpr ⟨steps, _,
        hwalk.withReader hagree, ?_⟩
      exact advance_withReader_of_ended (hwalk.travels hm).placed hend _
    cases h with
    | @step _ _ report h =>
      refine ⟨[report], m', .single h, .step _ _, fun reader hagree => ?_⟩
      have hreads := readCount_of_next h
      have hfirst : m.input.reader.Agree m.readCount reader := hreads ▸ hagree
      have hnext := next_withReader_of_agree hfirst
      rw [h, hreads] at hnext
      exact .step hnext
    | stepFails h =>
      obtain ⟨hc, hreader⟩ := exists_withReader_of_stepFails hm h
      exact ⟨[], m, .nil m, hc, fun reader _ => hreader reader⟩
    | run h =>
      obtain ⟨steps, m₁, hwalk, hend, hreader⟩ := hrun h
      rcases concludes_of_ended (hwalk.frame.2.trans hf) hend with ⟨_, ⟨⟩, hc⟩ | ⟨_, ⟨⟩, -⟩
      exact ⟨steps, m₁, hwalk, hc, fun reader hagree => .run (hreader reader hagree)⟩
    | runFails h =>
      obtain ⟨steps, m₁, hwalk, hend, hreader⟩ := hrun h
      rcases concludes_of_ended (hwalk.frame.2.trans hf) hend with ⟨_, ⟨⟩, -⟩ | ⟨_, ⟨⟩, hc⟩
      exact ⟨steps, m₁, hwalk, hc, fun reader hagree => .runFails (hreader reader hagree)⟩
    | @debug _ d s s' r hreach hend =>
      obtain ⟨steps, hemits⟩ := (Progress.reaches_iff_emits Session.reports).mp hreach
      obtain ⟨hwalk, hw⟩ := Session.walk_of_emits rfl hemits
      obtain ⟨m₁, hlast, hc⟩ := Session.exists_walk_of_ended hw hend
      refine ⟨steps ++ s.reports, m₁, hwalk.append hlast, hc, fun reader hagree => ?_⟩
      obtain ⟨hemits', hreturned, hstep⟩ :=
        Session.emits_and_step_withReader rfl hm hemits hagree
      rw [hend] at hstep
      rw [← hreturned r]
      exact .debug ((Progress.reaches_iff_emits _).mpr ⟨_, hemits'⟩) hstep

/-! ## Calls one after another -/

namespace Calls

/-- Calls one after another, each with what it returns, up to a moment in the course of a further
call, with the reports of all instructions that have been executed. -/
inductive Trace : Machine → List (Call × Returned) → List Step → Machine → Prop
  /-- A call has executed some instructions, and goes on. -/
  | course {m m' : Machine} {steps : List Step} (h : Walk m steps m') : Trace m [] steps m'
  /-- A call has executed some instructions, and returns. -/
  | call {m m₁ m₂ m' : Machine} {call : Call} {returned : Returned}
    {calls : List (Call × Returned)} {steps later : List Step} (h : call.Returns m returned m₁)
    (hwalk : Walk m steps m₂) (hc : Concludes m₂ returned m₁) (rest : Trace m₁ calls later m') :
    Trace m ((call, returned) :: calls) (steps ++ later) m'

/-- All calls have a trace, up to every moment of a further one. -/
lemma exists_trace (h : Calls m calls m₁) :
    ∃ earlier, ∀ steps m', Walk m₁ steps m' → Trace m calls (earlier ++ steps) m' := by
  induction h with
  | nil => exact ⟨[], fun steps m' hwalk => .course hwalk⟩
  | cons h _ ih =>
    obtain ⟨first, m₂, hfirst, hc, -⟩ := h.exists_walk
    obtain ⟨earlier, hrest⟩ := ih
    refine ⟨first ++ earlier, fun steps m' hwalk => ?_⟩
    rw [List.append_assoc]
    exact .call h hfirst hc (hrest steps m' hwalk)

namespace Trace

/-- A trace counts the instructions that have been executed. -/
lemma executed (h : Trace m calls steps m') : m'.executed = m.executed + steps.length := by
  induction h with
  | course h => exact h.executed
  | call _ hwalk hc _ ih =>
    rw [ih, hc.executed_eq, hwalk.executed, List.length_append, Nat.add_assoc]

/-- Calls leave a machine in its program and on its tape, or at a move that it was refused. -/
lemma placed (h : Trace m calls steps m') (hm : m.Placed) : m'.Placed := by
  induction h with
  | course h => exact (h.travels hm).placed
  | call _ hwalk hc _ ih => exact ih (hc.travels (hwalk.travels hm).placed).placed

/-- **What is read in the course of calls** is what the inputs store.

**Proof sketch.** Induction on the calls. What concludes a call reads nothing. -/
theorem receives (h : Trace m calls steps m') (hm : m.Placed) :
    Receives m (received steps) m' := by
  induction h with
  | course h => exact h.receives
  | call _ hwalk hc _ ih =>
    have hm₂ := (hwalk.travels hm).placed
    rw [received_append]
    have hfirst := hwalk.receives.trans (.of_input_eq (hc.input_eq hm₂))
    rw [List.append_nil] at hfirst
    exact hfirst.trans (ih (hc.travels hm₂).placed)

/-- **Calls over another reader** do the same as long as their inputs find the same.

**Proof sketch.** Induction on the calls. The steps of a call are told by their number, so that they
are those of the call over the other reader. -/
theorem withReader (h : Trace m calls steps m') (hm : m.Placed)
    (hagree : m.input.reader.Agree (received steps).length reader) :
    Trace (m.withReader reader) calls steps
      (m'.withReader (reader.after (received steps).length)) := by
  induction h generalizing reader with
  | course h => exact .course (h.withReader hagree)
  | @call m m₁ m₂ m' call returned calls steps later h hwalk hc rest ih =>
    obtain ⟨steps', m₂', hwalk', hc', hreader⟩ := h.exists_withReader hm
    have hlength : steps'.length = steps.length := by
      have hexecuted := hwalk.executed
      have hexecuted' := hwalk'.executed
      rw [← hc.executed_eq] at hexecuted
      rw [← hc'.executed_eq] at hexecuted'
      omega
    obtain ⟨rfl, -⟩ := hwalk'.unique hwalk hlength
    rw [received_append, List.length_append] at hagree ⊢
    have hm₂ := (hwalk.travels hm).placed
    have hfront := hagree.mono (Nat.le_add_right _ _)
    have hagree' := hagree.after
    rw [← hwalk.receives.reader, ← hc.input_eq hm₂] at hagree'
    rw [Reader.after_add]
    exact .call (hreader reader hfront) (hwalk.withReader hfront) (hc.withReader hm₂ _)
      (ih (hc.travels hm₂).placed hagree')

end Trace

/-! ## The order of the input -/

/-- What a machine `m` has read of its reader, at a moment when some instructions have been
executed. -/
structure InputRead (reader : Reader) (steps : List Step) (m : Machine) : Prop where
  /-- The instructions are all that have been executed. -/
  executed : m.executed = steps.length
  /-- Each input among them has stored the entry with its number, or a zero if that is no byte. -/
  stored : ∀ k b, (received steps)[k]? = some b → b = (reader.entry k).getD 0
  /-- The bytes that count as read are the genuine ones among as many entries as there were
  inputs. -/
  counted : m.stats.inputBytes =
    (List.range (received steps).length).countP fun n => (reader.entry n).isSome
  /-- They are the first bytes of the reader, in order. -/
  genuine : (List.range (received steps).length).filterMap reader.entry =
    reader.bytes.take m.stats.inputBytes
  /-- The reader has been read once for each input, and not otherwise. -/
  left : m.input.reader = reader.after (received steps).length

/-- What a trace from the start of a program has read. -/
lemma Trace.inputRead {program : Program} {config : Config} {writer : Writer}
    (h : Trace (.start program config reader writer) calls steps m) :
    InputRead reader steps m := by
  have hr := h.receives (placed_start program config reader writer).2
  have hcounted := hr.consumed.trans (Nat.zero_add _)
  refine
    { executed := h.executed.trans (Nat.zero_add _)
      stored := fun k b hk => ?_
      counted := hcounted
      genuine := ?_
      left := hr.reader }
  · rw [hr.stored, List.getElem?_map] at hk
    obtain ⟨n, hn, rfl⟩ := Option.map_eq_some_iff.mp hk
    obtain ⟨-, rfl⟩ := List.getElem?_eq_some_iff.mp hn
    rw [List.getElem_range]
    rfl
  · show _ = reader.bytes.take m.input.consumed
    rw [hcounted]
    exact reader.filterMap_entry_range _

/-- **Input is read in order, lazily and once.** At every moment of any calls from the start of a
program, each input that has been executed has stored the entry of the reader with its number, and
the reader has been read as often, and not otherwise. So over readers that agree in their first `k`
entries everything is the same as long as no more than `k` inputs have been executed: what the calls
return, all instructions that are executed, the machine but for what is left of its reader, and the
sessions that go on from there, with all that their debuggers take and show. -/
theorem input_is_read_in_order (program : Program) (config : Config) (reader : Reader)
    (writer : Writer) :
    (∀ calls m, Calls (.start program config reader writer) calls m →
      ∃ steps, Trace (.start program config reader writer) calls steps m ∧
        ∀ call made m', Call.Course call m made none m' →
          ∃ more, Trace (.start program config reader writer) calls (steps ++ more) m') ∧
    (∀ calls steps m, Trace (.start program config reader writer) calls steps m →
      InputRead reader steps m) ∧
    ∀ k reader', reader.Agree k reader' →
      ∀ calls steps m, Trace (.start program config reader writer) calls steps m →
        (received steps).length ≤ k →
        Trace (.start program config reader' writer) calls steps
          (m.withReader (reader'.after (received steps).length)) ∧
        ∀ d more s, Progress.Emits Session.step Session.reports (.start m d .separate) more s →
          (received (steps ++ more ++ s.reports)).length ≤ k →
          Progress.Emits Session.step Session.reports
              (.start (m.withReader (reader'.after (received steps).length)) d .separate) more
              (s.withReader (reader'.after (received (steps ++ more)).length)) ∧
            (s.withReader (reader'.after (received (steps ++ more)).length)).step =
              s.step.map
                (·.withReader (reader'.after (received (steps ++ more ++ s.reports)).length)) := by
  have hplaced := (placed_start program config reader writer).2
  refine ⟨fun calls m h => ?_, fun calls steps m h => h.inputRead, ?_⟩
  · obtain ⟨steps, hwalk⟩ := h.exists_trace
    refine ⟨steps, ?_, fun call made m' hcourse => ?_⟩
    · simpa using hwalk [] m (.nil m)
    · obtain ⟨more, hmore⟩ := hcourse.exists_walk
      exact ⟨more, hwalk more m' hmore⟩
  · intro k reader' hagree calls steps m h hk
    refine ⟨h.withReader hplaced (hagree.mono hk), fun d more s hemits hk' => ?_⟩
    rw [List.append_assoc, received_append, List.length_append] at hk'
    have hrest := (hagree.mono hk').after
    rw [← h.inputRead.left] at hrest
    obtain ⟨hemits', -, hstep⟩ :=
      Session.emits_and_step_withReader rfl (h.placed hplaced) hemits hrest
    rw [List.append_assoc, received_append, received_append _ (more ++ _), List.length_append,
      List.length_append, Reader.after_add, Reader.after_add]
    exact ⟨hemits', hstep⟩

/-- The program `,,` over two readers whose first entries are a zero and no byte. The first reader
is interrupted, gives a zero, fails and could give more; the other one gives a zero and ends. -/
theorem input_is_read_in_order_of_two_reads :
    ∃ (program : Program) (steps : List Step) (m : Machine),
      program.instructions = #[.input, .input] ∧ received steps = [0, 0] ∧
      InputRead ⟨[.interrupted, .byte 0, .failed .brokenSource, .byte 7], none⟩ steps m ∧
      m.stats.inputBytes = 1 ∧
      Trace (.start program {} (.ofBytes [0]) {}) [(.run, .completed ⟨2, 1, 0, 1⟩)] steps
        (m.withReader (.ofBytes [])) := by
  have htrace : Trace
      (.start ⟨#[.input, .input], ⟨#[0, 1]⟩, 0, rfl⟩ {}
        ⟨[.interrupted, .byte 0, .failed .brokenSource, .byte 7], none⟩ {})
      [(.run, .completed ⟨2, 1, 0, 1⟩)] [⟨0, .input, 1, 0, 0⟩, ⟨1, .input, 2, 0, 0⟩] _ :=
    .call (.run ⟨3, rfl⟩) (.cons rfl (.cons rfl (.nil _))) (.completed rfl rfl rfl)
      (.course (.nil _))
  obtain ⟨-, hread, hother⟩ := input_is_read_in_order ⟨#[.input, .input], ⟨#[0, 1]⟩, 0, rfl⟩ {}
    ⟨[.interrupted, .byte 0, .failed .brokenSource, .byte 7], none⟩ {}
  have hagree : Reader.Agree 2 ⟨[.interrupted, .byte 0, .failed .brokenSource, .byte 7], none⟩
      (.ofBytes [0]) := by
    unfold Reader.Agree
    decide
  exact ⟨_, _, _, rfl, rfl, hread _ _ _ htrace, rfl,
    (hother 2 _ hagree _ _ _ htrace le_rfl).1⟩

end Calls

end TapeMachine

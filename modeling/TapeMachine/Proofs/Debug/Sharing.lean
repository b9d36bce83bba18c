import Mathlib.Tactic
import TapeMachine.Proofs.Debug.Session
import TapeMachine.Proofs.Machine.Reading
import TapeMachine.Proofs.Progress

/-!
# Debug sessions on one stream

The operator's lines and the program's input can come from one stream. Then it is the program that
tells, by its own course, which bytes are lines and which are input. Whatever it does, the session
is the same as one in which the lines and the input come from streams of their own, namely what is
taken as lines and what is taken as input.

## Main definitions

* `TapeMachine.Session.taken?`, `TapeMachine.Session.reads` — what a session takes from its stream,
  in the next step and in the next steps.
* `TapeMachine.Session.split` — a session with two streams in place of one.

## Main results

* `TapeMachine.Session.Sharing.step` — one step on one stream and on two.
* `TapeMachine.Session.Sharing.follow` — any number of steps on one stream and on two.
* `TapeMachine.Session.Sharing.exists_split` — two streams that serve for the whole session.
-/

set_option autoImplicit false

namespace TapeMachine

open Progress

/-! ## Debuggers with other lines -/

namespace Debugger

/-- A debugger with other lines of the operator. -/
def withCommands (d : Debugger) (commands : Reader) : Debugger := { d with commands }

variable (d : Debugger) (commands : Reader)

/-- What is shown does not depend on the lines. -/
lemma display_withCommands (text : String) :
    (d.withCommands commands).display text =
      ((d.display text).1, (d.display text).2.withCommands commands) := rfl

lemma prompt_withCommands :
    (d.withCommands commands).prompt = (d.prompt.1, d.prompt.2.withCommands commands) := by
  unfold prompt
  rw [display_withCommands]
  rcases d.display promptText with ⟨_ | _, d'⟩ <;> rfl

lemma announce_withCommands (step : Step) :
    (d.withCommands commands).announce step =
      ((d.announce step).1, (d.announce step).2.withCommands commands) := by
  unfold announce
  rw [display_withCommands]
  rcases d.display step.report with ⟨_ | _, d'⟩
  · rfl
  · exact d'.prompt_withCommands commands

lemma displayThen_withCommands (text : String) (how : Resume) :
    (d.withCommands commands).displayThen text how =
      ((d.displayThen text how).1, (d.displayThen text how).2.withCommands commands) := by
  unfold displayThen
  rw [display_withCommands]
  rcases d.display text with ⟨_ | _, d'⟩ <;> rfl

lemma promptAgain_withCommands :
    (d.withCommands commands).promptAgain =
      (d.promptAgain.1, d.promptAgain.2.withCommands commands) := by
  unfold promptAgain
  rw [prompt_withCommands]
  rcases d.prompt with ⟨_ | _, d'⟩ <;> rfl

lemma showWindow_withCommands (dp : Int) (tape : Tape) :
    (d.withCommands commands).showWindow dp tape =
      ((d.showWindow dp tape).1, (d.showWindow dp tape).2.withCommands commands) := by
  have hdisplay := d.display_withCommands commands (windowText tape dp d.radius)
  unfold showWindow
  simp only [show (d.withCommands commands).radius = d.radius from rfl, hdisplay]
  rcases d.display (windowText tape dp d.radius) with ⟨_ | _, d'⟩
  · rfl
  · exact d'.promptAgain_withCommands commands

/-- The reaction to a command does not depend on the lines behind it. -/
lemma react_withCommands (dp : Int) (tape : Tape) (command? : Option Command) :
    (d.withCommands commands).react dp tape command? =
      ((d.react dp tape command?).1, (d.react dp tape command?).2.withCommands commands) := by
  match command? with
  | none => exact d.displayThen_withCommands commands "\n" .proceed
  | some .step | some .proceed | some .quit => rfl
  | some .print => exact d.showWindow_withCommands commands dp tape
  | some (.unknown text) => exact d.displayThen_withCommands commands (unknownText text) .step

/-- The reaction to a line of the operator. -/
def reactTo (dp : Int) (tape : Tape) (line : List UInt8) : Reply × Debugger :=
  match Command.ofLine? line with
  | .error cause => (.failed cause, d)
  | .ok command? => d.react dp tape command?

/-- An answer is the reaction to the line that is taken, and leaves the lines behind it. -/
lemma answer_withCommands {line : List UInt8} {rest : Reader}
    (h : commands.nextLine = (.ok line, rest)) (dp : Int) (tape : Tape) :
    (d.withCommands commands).answer dp tape =
      ((d.reactTo dp tape line).1, (d.reactTo dp tape line).2.withCommands rest) := by
  have htaken : (d.withCommands commands).nextCommand =
      (Command.ofLine? line, d.withCommands rest) := by
    simp only [nextCommand, withCommands, h]
    rfl
  unfold answer reactTo
  rw [htaken]
  cases Command.ofLine? line with
  | error cause => rfl
  | ok command? => exact d.react_withCommands rest dp tape command?

end Debugger

/-! ## What a session takes -/

namespace Session

/-- What the next step of a session takes from the streams: a line when it asks the operator, and a
byte when the program executes an input. -/
def taken? (s : Session) : Option Taken :=
  if s.machine.finished then none
  else
    match s.phase with
    | .asking _ =>
      match s.commands.nextLine.1 with
      | .ok line => some (.line line)
      | .error _ => none
    | .executing _ =>
      if s.machine.instruction? = some .input then
        match s.machine.input.reader.next.1 with
        | .byte b => some (.byte (some b))
        | .eof | .failed _ => some (.byte none)
      else
        none

/-- What the next steps of a session take from the streams, in the order of the reads. -/
def reads : Nat → Session → List Taken
  | 0, _ => []
  | n + 1, s =>
    s.taken?.toList ++
      match s.step with
      | .running s' => reads n s'
      | .ended _ _ => []

/-- A session with two streams in place of one: one for the operator's lines, the other for the
program's input. -/
def split (s : Session) (commands input : List UInt8) : Session where
  machine := s.machine.withReader (.ofBytes input)
  debugger := s.debugger.withCommands (.ofBytes commands)
  wiring := .separate
  phase := s.phase

/-- A session on one stream. -/
structure Sharing (s : Session) (stream : List UInt8) : Prop where
  shared : s.wiring = .shared
  reader : s.machine.input.reader = .ofBytes stream

variable {s : Session} {stream rest : List UInt8}

/-! ## Single steps -/

/-- The wiring of a session that executes, and its machine. -/
lemma state_advance (s : Session) (suspending : Bool) :
    (s.advance suspending).state.wiring = s.wiring ∧
      (s.advance suspending).state.machine =
        if s.machine.instruction? = none then s.machine.finish.2 else s.machine.next.2 := by
  unfold advance
  cases s.machine.instruction? with
  | none => rcases s.machine.finish with ⟨_ | _, m⟩ <;> exact ⟨rfl, rfl⟩
  | some i =>
    rcases s.machine.next with ⟨_ | report, m⟩
    · exact ⟨rfl, rfl⟩
    · cases suspending with
      | false => exact ⟨rfl, rfl⟩
      | true =>
        dsimp only
        rcases s.debugger.announce report with ⟨_ | _, d⟩ <;> exact ⟨rfl, rfl⟩

/-- How a session that asks goes on from an answer. -/
def heed (s : Session) : Reply × Debugger → Result
  | (.failed cause, d) => .ended (.error (.io cause)) (s.withOperator d)
  | (.again, d) => .running (s.withOperator d)
  | (.resume how, d) => (s.withOperator d).resume how

/-- A session that asks heeds the answer. -/
lemma step_eq_heed (hf : s.machine.finished = false) {report : Step}
    (hp : s.phase = .asking report) :
    s.step = s.heed (s.operator.answer report.dp s.machine.tape) := by
  simp only [step, hf, Bool.false_eq_true, if_false, hp]
  rcases s.operator.answer report.dp s.machine.tape with ⟨_ | _ | _, d⟩ <;> rfl

/-- A session that executes sees no more of the program's input than its machine does, and nothing
of the operator's lines. -/
lemma advance_split (s : Session) (suspending : Bool) (commands : List UInt8)
    {input input' : List UInt8} (hend : s.machine.instruction? = none → input = input')
    (hnext : s.machine.instruction? ≠ none → (s.machine.withReader (.ofBytes input)).next =
      (s.machine.next.1, s.machine.next.2.withReader (.ofBytes input'))) :
    (s.split commands input).advance suspending =
      (s.advance suspending).map (·.split commands input') := by
  have hsame : (s.split commands input).machine.instruction? = s.machine.instruction? := rfl
  unfold advance
  rewrite [hsame]
  cases hi : s.machine.instruction? with
  | none =>
    obtain rfl := hend hi
    have hfinish := s.machine.finish_withReader (.ofBytes input)
    simp only [split, hfinish]
    rcases s.machine.finish with ⟨_ | _, m⟩ <;> rfl
  | some i =>
    simp only [split, hnext (by rw [hi]; exact Option.some_ne_none i)]
    rcases s.machine.next with ⟨_ | report, m⟩
    · rfl
    · cases suspending with
      | false => rfl
      | true =>
        simp only [if_true, Debugger.announce_withCommands]
        rcases s.debugger.announce report with ⟨_ | _, d⟩ <;> rfl

namespace Sharing

/-- A session that has ended takes nothing. -/
lemma step_finished (h : s.Sharing stream) (hf : s.machine.finished = true) :
    s.taken? = none ∧ s.step.state.Sharing stream ∧
      ∀ commands input, (s.split commands input).step = s.step.map (·.split commands input) := by
  have hstep : s.step = .ended (.error .alreadyFinished) s := by
    simp only [step, hf, if_true]
  refine ⟨by simp only [taken?, hf, if_true], by rw [hstep]; exact h, fun commands input => ?_⟩
  have hf' : (s.split commands input).machine.finished = true := hf
  rw [hstep]
  simp only [step, hf', if_true]
  rfl

/-- A session that goes on from an answer shares what the answer has left. -/
lemma heed (h : s.Sharing stream) (reply : Reply) (d : Debugger) (rest : List UInt8) :
    (s.heed (reply, d.withCommands (.ofBytes rest))).state.Sharing rest := by
  have hoperator : (s.withOperator (d.withCommands (.ofBytes rest))).Sharing rest := by
    unfold withOperator
    rewrite [h.shared]
    exact ⟨rfl, rfl⟩
  match reply with
  | .failed _ | .again | .resume .step | .resume .proceed | .resume .quit =>
    exact ⟨hoperator.shared, hoperator.reader⟩

/-- How a session goes on from an answer does not depend on its streams. -/
lemma heed_split (h : s.Sharing stream) (reply : Reply) (d : Debugger)
    (rest commands₀ commands input : List UInt8) :
    (s.split commands₀ input).heed (reply, d.withCommands (.ofBytes commands)) =
      (s.heed (reply, d.withCommands (.ofBytes rest))).map (·.split commands input) := by
  have hoperator : (s.split commands₀ input).withOperator (d.withCommands (.ofBytes commands)) =
      (s.withOperator (d.withCommands (.ofBytes rest))).split commands input := by
    simp only [withOperator, h.shared]
    rfl
  match reply with
  | .failed _ | .again | .resume .step | .resume .proceed | .resume .quit =>
    simp only [Session.heed, hoperator]
    rfl

/-- A session that asks takes a line, and only that. -/
lemma step_asking (h : s.Sharing stream) (hf : s.machine.finished = false) {report : Step}
    (hp : s.phase = .asking report) :
    ∃ line rest, stream = line ++ rest ∧ IsLine line rest ∧ s.taken? = some (.line line) ∧
      s.step.state.Sharing rest ∧
      ∀ commands input, (rest = [] → commands = []) →
        (s.split (line ++ commands) input).step = s.step.map (·.split commands input) := by
  obtain ⟨line, rest, rfl, hline⟩ := IsLine.exists_append stream
  have hcommands : s.commands = .ofBytes (line ++ rest) := by
    simp only [commands, h.shared, h.reader]
  have hnext := Reader.nextLine_ofBytes hline
  have hstep : s.step =
      s.heed ((s.debugger.reactTo report.dp s.machine.tape line).1,
        (s.debugger.reactTo report.dp s.machine.tape line).2.withCommands (.ofBytes rest)) := by
    have hoperator : s.operator = s.debugger.withCommands (.ofBytes (line ++ rest)) :=
      congrArg s.debugger.withCommands hcommands
    rw [step_eq_heed hf hp, hoperator, s.debugger.answer_withCommands _ hnext]
  refine ⟨line, rest, rfl, hline, ?_, ?_, fun commands input hnil => ?_⟩
  · simp [taken?, hf, hp, hcommands, hnext]
  · rw [hstep]
    exact h.heed _ _ rest
  · have hnext' := Reader.nextLine_ofBytes (hline.of_rest hnil)
    have hoperator : (s.split (line ++ commands) input).operator =
        s.debugger.withCommands (.ofBytes (line ++ commands)) := rfl
    rw [step_eq_heed (s := s.split _ _) hf hp, hoperator,
      s.debugger.answer_withCommands _ hnext', hstep]
    exact h.heed_split _ _ rest _ commands input

/-- A session that executes steps on with its machine. -/
lemma state_step (h : s.Sharing stream) (hf : s.machine.finished = false) {suspending : Bool}
    (hp : s.phase = .executing suspending)
    (hend : s.machine.instruction? = none → rest = stream)
    (hnext : ∀ i, s.machine.instruction? = some i →
      (s.machine.execute i).2.input.reader = .ofBytes rest) :
    s.step.state.Sharing rest := by
  obtain ⟨hwiring, hmachine⟩ := s.state_advance suspending
  rw [step_of_executing hf hp]
  refine ⟨hwiring.trans h.shared, ?_⟩
  rw [hmachine]
  cases hi : s.machine.instruction? with
  | none =>
    have hreader := congrArg (fun r => r.2.input.reader)
      (s.machine.finish_withReader s.machine.input.reader)
    rw [hend hi, ← h.reader]
    exact hreader
  | some i =>
    rw [if_neg (Option.some_ne_none i), Machine.next_of_instruction hf hi]
    exact hnext i hi

/-- An input takes a byte, and only that. -/
lemma step_input (h : s.Sharing stream) (hf : s.machine.finished = false) {suspending : Bool}
    (hp : s.phase = .executing suspending) (hi : s.machine.instruction? = some .input) :
    s.taken? = some (.byte stream.head?) ∧ s.step.state.Sharing stream.tail ∧
      ∀ commands input, (stream.tail = [] → input = []) →
        (s.split commands (stream.head?.toList ++ input)).step =
          s.step.map (·.split commands input) := by
  have hread := Reader.next_ofBytes stream
  refine ⟨?_, h.state_step hf hp (fun hnone => ?_) (fun i hi' => ?_), fun commands input hnil => ?_⟩
  · simp only [taken?, hf, hp, hi, h.reader, hread]
    cases stream <;> rfl
  · rw [hi] at hnone
    cases hnone
  · rw [hi] at hi'
    cases hi'
    rw [Machine.reader_execute_input, h.reader, hread]
  · have hread' : (Reader.ofBytes (stream.head?.toList ++ input)).next =
        ((Reader.ofBytes stream).next.1, .ofBytes input) := by
      rw [Reader.next_ofBytes, hread]
      cases stream with
      | nil =>
        rw [hnil rfl]
        rfl
      | cons b stream => rfl
    rw [step_of_executing hf hp, step_of_executing (s := s.split _ _) hf hp]
    refine s.advance_split suspending commands (fun hnone => ?_) fun _ => ?_
    · rw [hi] at hnone
      cases hnone
    · refine Machine.next_withReader hf hi ?_
      rw [Machine.execute_input_withReader (by rw [hread', h.reader]), hread']

/-- The other instructions, and the end of the program, take nothing. -/
lemma step_other (h : s.Sharing stream) (hf : s.machine.finished = false) {suspending : Bool}
    (hp : s.phase = .executing suspending) (hi : s.machine.instruction? ≠ some .input) :
    s.taken? = none ∧ s.step.state.Sharing stream ∧
      ∀ commands input, (s.split commands input).step = s.step.map (·.split commands input) := by
  have hother : ∀ {i}, s.machine.instruction? = some i → i ≠ .input := by
    rintro i hsome rfl
    exact hi hsome
  refine ⟨by simp [taken?, hf, hp, hi], h.state_step hf hp (fun _ => rfl) (fun i hi' => ?_),
    fun commands input => ?_⟩
  · rw [Machine.reader_execute (hother hi'), h.reader]
  · rw [step_of_executing hf hp, step_of_executing (s := s.split _ _) hf hp]
    refine s.advance_split suspending commands (fun _ => rfl) fun hsome => ?_
    obtain ⟨i, hi'⟩ := Option.ne_none_iff_exists'.mp hsome
    exact Machine.next_withReader hf hi' (Machine.execute_withReader (hother hi') _)

/-- **One step on one stream and on two.** What the step takes is taken from the stream. The step is
the same on two streams that begin with what it takes as a line, and as input. -/
theorem step (h : s.Sharing stream) :
    ∃ rest, TakenFrom stream s.taken?.toList rest ∧ s.step.state.Sharing rest ∧
      ∀ commands input, (rest = [] → commands = [] ∧ input = []) →
        (s.split (s.taken?.toList.flatMap Taken.lineBytes ++ commands)
          (s.taken?.toList.flatMap Taken.inputBytes ++ input)).step =
          s.step.map (·.split commands input) := by
  cases hf : s.machine.finished with
  | true =>
    obtain ⟨htaken, hsharing, hsplit⟩ := h.step_finished hf
    rw [htaken]
    exact ⟨stream, .nil stream, hsharing, fun commands input _ => hsplit commands input⟩
  | false =>
    cases hp : s.phase with
    | asking report =>
      obtain ⟨line, rest, rfl, hline, htaken, hsharing, hsplit⟩ := h.step_asking hf hp
      rw [htaken]
      refine ⟨rest, .line hline (.nil rest), hsharing, fun commands input hnil => ?_⟩
      simpa [Taken.lineBytes, Taken.inputBytes] using
        hsplit commands input fun hrest => (hnil hrest).1
    | executing suspending =>
      by_cases hi : s.machine.instruction? = some .input
      · obtain ⟨htaken, hsharing, hsplit⟩ := h.step_input hf hp hi
        rw [htaken]
        refine ⟨stream.tail, ?_, hsharing, fun commands input hnil => ?_⟩
        · cases stream with
          | nil => exact .eof (.nil [])
          | cons b stream => exact .byte (.nil stream)
        · simpa [Taken.lineBytes, Taken.inputBytes] using
            hsplit commands input fun hrest => (hnil hrest).2
      · obtain ⟨htaken, hsharing, hsplit⟩ := h.step_other hf hp hi
        rw [htaken]
        exact ⟨stream, .nil stream, hsharing, fun commands input _ => hsplit commands input⟩

/-- **Any number of steps on one stream and on two.** What they take is taken from the stream, one
after another. The steps are the same on two streams that begin with what they take as lines, and
as input; of these streams they leave what stands behind that.

**Proof sketch.** Induction on the steps. What later steps take from the two streams stands behind
what the first one takes from them. Where the one stream has come to its end so have the two. -/
theorem follow (n : Nat) (h : s.Sharing stream) :
    ∃ rest, TakenFrom stream (s.reads n) rest ∧
      (Progress.follow Session.step n s).state.Sharing rest ∧
      ∀ commands input, (rest = [] → commands = [] ∧ input = []) →
        Progress.follow Session.step n
            (s.split ((s.reads n).flatMap Taken.lineBytes ++ commands)
              ((s.reads n).flatMap Taken.inputBytes ++ input)) =
          (Progress.follow Session.step n s).map (·.split commands input) := by
  induction n generalizing s stream with
  | zero => exact ⟨stream, .nil stream, h, fun _ _ _ => rfl⟩
  | succ n ih =>
    obtain ⟨rest₁, htaken₁, hsharing₁, hsplit₁⟩ := h.step
    cases hs : s.step with
    | ended r s' =>
      rw [hs] at hsharing₁ hsplit₁
      have hreads : s.reads (n + 1) = s.taken?.toList := by
        simp only [reads, hs, List.append_nil]
      rw [hreads, follow_succ_of_ended hs]
      exact ⟨rest₁, htaken₁, hsharing₁, fun commands input hnil =>
        follow_succ_of_ended (hsplit₁ commands input hnil) n⟩
    | running s' =>
      rw [hs] at hsharing₁ hsplit₁
      obtain ⟨rest, htaken, hsharing, hsplit⟩ := ih (s := s') hsharing₁
      have hreads : s.reads (n + 1) = s.taken?.toList ++ s'.reads n := by
        simp only [reads, hs]
      rw [hreads, follow_succ_of_running hs]
      refine ⟨rest, htaken₁.append htaken, hsharing, fun commands input hnil => ?_⟩
      -- at the end of the one stream the later steps take nothing from the two
      have hnil₁ : rest₁ = [] → (s'.reads n).flatMap Taken.lineBytes ++ commands = [] ∧
          (s'.reads n).flatMap Taken.inputBytes ++ input = [] := by
        rintro rfl
        obtain ⟨hrest, hlines, hinput⟩ := htaken.of_nil
        rw [hlines, hinput]
        exact hnil hrest
      rw [List.flatMap_append, List.flatMap_append, List.append_assoc, List.append_assoc,
        follow_succ_of_running (hsplit₁ _ _ hnil₁)]
      exact hsplit commands input hnil

end Sharing

/-! ## Whole sessions -/

/-- Later reads follow earlier ones. -/
lemma exists_reads_append (s : Session) {n k : Nat} (hle : n ≤ k) :
    ∃ more, s.reads k = s.reads n ++ more := by
  induction n generalizing s k with
  | zero => exact ⟨s.reads k, rfl⟩
  | succ n ih =>
    obtain ⟨k, rfl⟩ : ∃ j, k = j + 1 := ⟨k - 1, by omega⟩
    cases hs : s.step with
    | ended r s' => exact ⟨[], by simp only [reads, hs, List.append_nil]⟩
    | running s' =>
      obtain ⟨more, hmore⟩ := ih s' (Nat.le_of_succ_le_succ hle)
      exact ⟨more, by simp only [reads, hs, hmore, List.append_assoc]⟩

/-- A session that does not suspend any more goes on like that. -/
lemma phase_of_advance {s' : Session} (h : s.advance false = .running s') : s'.phase = s.phase := by
  unfold advance at h
  split at h
  · split at h <;> cases h
  · split at h
    · cases h
    · simp only [Bool.false_eq_true, if_false, Progress.running.injEq] at h
      rw [← h]

/-- **Once the operator has asked for the rest of the program**, a session takes bytes only. -/
theorem exists_byte_of_mem_reads (n : Nat) (hp : s.phase = .executing false) {t : Taken}
    (ht : t ∈ s.reads n) : ∃ b?, t = .byte b? := by
  induction n generalizing s with
  | zero => cases ht
  | succ n ih =>
    rcases List.mem_append.mp ht with ht | ht
    · unfold taken? at ht
      rewrite [hp] at ht
      dsimp only at ht
      split_ifs at ht
      · simp at ht
      · split at ht <;> exact ⟨_, by simpa using ht⟩
      · simp at ht
    · cases hs : s.step with
      | ended r s' =>
        rw [hs] at ht
        cases ht
      | running s' =>
        rw [hs] at ht
        refine ih ?_ ht
        cases hf : s.machine.finished with
        | true => simp [step, hf] at hs
        | false =>
          rw [step_of_executing hf hp] at hs
          rw [phase_of_advance hs, hp]

/-- **Two streams serve for the whole session.** There is a point behind which the session takes
nothing more. What it has taken as lines until then, and what it has taken as input, make up two
streams on which the session is the same in every step, whatever becomes of the rest. After each
step both streams are left from where the session has got to. -/
theorem Sharing.exists_split (h : s.Sharing stream) :
    ∃ N rest, TakenFrom stream (s.reads N) rest ∧
      ∀ commands input, commands ++ input = rest → ∀ n, ∃ commands' input',
        (s.reads N).flatMap Taken.lineBytes ++ commands =
          (s.reads n).flatMap Taken.lineBytes ++ commands' ∧
        (s.reads N).flatMap Taken.inputBytes ++ input =
          (s.reads n).flatMap Taken.inputBytes ++ input' ∧
        Progress.follow Session.step n
            (s.split ((s.reads N).flatMap Taken.lineBytes ++ commands)
              ((s.reads N).flatMap Taken.inputBytes ++ input)) =
          (Progress.follow Session.step n s).map (·.split commands' input') := by
  choose rest htaken hsharing hsplit using fun n => h.follow n
  -- the fewest bytes that are ever left
  obtain ⟨N, hmin⟩ : ∃ N, ∀ n, (rest N).length ≤ (rest n).length :=
    ⟨_, fun n => Function.argmin_le (fun n => (rest n).length) n⟩
  refine ⟨N, rest N, htaken N, fun commands input hrest n => ?_⟩
  have hnil : rest N = [] → commands = [] ∧ input = [] := by
    intro h
    rw [h] at hrest
    exact List.append_eq_nil_iff.mp hrest
  obtain ⟨commands', input', hcommands, hinput, hnil'⟩ : ∃ commands' input',
      (s.reads N).flatMap Taken.lineBytes ++ commands =
        (s.reads n).flatMap Taken.lineBytes ++ commands' ∧
      (s.reads N).flatMap Taken.inputBytes ++ input =
        (s.reads n).flatMap Taken.inputBytes ++ input' ∧
      (rest n = [] → commands' = [] ∧ input' = []) := by
    rcases Nat.le_total n N with hle | hle
    · -- what is taken between the two points is still to be taken
      obtain ⟨more, hmore⟩ := s.exists_reads_append hle
      have hn : rest n = more.flatMap Taken.bytes ++ rest N :=
        (htaken n).rest_eq (hmore ▸ htaken N)
      refine ⟨more.flatMap Taken.lineBytes ++ commands, more.flatMap Taken.inputBytes ++ input,
        ?_, ?_, fun h => ?_⟩
      · rw [hmore, List.flatMap_append, List.append_assoc]
      · rw [hmore, List.flatMap_append, List.append_assoc]
      · obtain ⟨hbytes, hrestN⟩ := List.append_eq_nil_iff.mp (hn.symm.trans h)
        obtain ⟨hlines, hinput⟩ := Taken.flatMap_eq_nil hbytes
        rw [hlines, hinput]
        exact hnil hrestN
    · -- nothing is taken between the two points
      obtain ⟨more, hmore⟩ := s.exists_reads_append hle
      have hN : rest N = more.flatMap Taken.bytes ++ rest n :=
        (htaken N).rest_eq (hmore ▸ htaken n)
      have hlength := congrArg List.length hN
      rw [List.length_append] at hlength
      have hbytes : more.flatMap Taken.bytes = [] :=
        List.length_eq_zero_iff.mp (by have := hmin n; omega)
      obtain ⟨hlines, hinput⟩ := Taken.flatMap_eq_nil hbytes
      rw [hbytes, List.nil_append] at hN
      refine ⟨commands, input, ?_, ?_, fun h => hnil (hN.trans h)⟩
      · rw [hmore, List.flatMap_append, hlines, List.append_nil]
      · rw [hmore, List.flatMap_append, hinput, List.append_nil]
  refine ⟨commands', input', hcommands, hinput, ?_⟩
  rw [hcommands, hinput]
  exact hsplit n commands' input' hnil'

end Session

end TapeMachine

import Mathlib.Tactic
import TapeMachine.Proofs.Debug.Script
import TapeMachine.Proofs.Debug.Session

/-!
# Sessions that follow a script

If all that the operator is going to say is known, so is the course of a debug session: it suspends
behind one instruction after another while the script asks for steps, and the first answer that is
no step decides how it goes on from there.

## Main definitions

* `TapeMachine.Session.Attended` — a session whose screen never fails.
* `TapeMachine.Session.Stage`, `TapeMachine.Session.Ending` — how far a session has followed a
  script, and how it ends then.
* `TapeMachine.Session.Quits` — a machine gets to where the operator quits.
* `TapeMachine.Session.FollowsScript` — what a script decides about a session.

## Main results

* `TapeMachine.Session.Attended.exists_suspending` — a session makes the walks of its machine while
  its script asks for steps.
* `TapeMachine.Session.Stage.step`, `TapeMachine.Session.Stage.of_reaches` — what one step of such a
  session does, and what all of its steps do.
* `TapeMachine.Session.runsTo_iff_of_answers` — how a session ends depends on the answers only.
* `TapeMachine.Session.debug_session_follows_script` — a session follows the script of its operator.
-/

set_option autoImplicit false

namespace TapeMachine

open Machine
open Command (answers)

namespace Session

/-- A session that has not ended, on a screen that never fails, with a stream of its own for the
operator's lines. -/
structure Attended (radius : Nat) (s : Session) : Prop where
  separate : s.wiring = .separate
  running : s.machine.finished = false
  screen : s.debugger.screen.Reliable
  radius : s.debugger.radius = radius

variable {m m' m₁ : Machine} {d : Debugger} {s s' : Session} {radius : Nat} {report : Step}
  {steps : List Step} {script : List Command}

namespace Attended

/-! ## Single steps -/

/-- A single step does not finish the machine of a session. -/
lemma finished_next (h : s.Attended radius) (hnext : s.machine.next = (.ok report, m')) :
    m'.finished = false := (next_frame hnext).2.1.trans h.running

/-- A session ends where a run of its machine ends. -/
lemma step_ended (h : s.Attended radius) {suspending : Bool} (hp : s.phase = .executing suspending)
    {r : Except Fault Stats} (ha : s.machine.advance = .ended r m') :
    s.step = .ended (r.map .completed) { s with machine := m' } := by
  rw [step_of_executing h.running hp, advance_of_ended h.running ha]

/-- A session that suspends reports the next instruction and puts the question. -/
lemma step_suspending (h : s.Attended radius) (hp : s.phase = .executing true)
    (hnext : s.machine.next = (.ok report, m')) :
    ∃ d', s.step = .running { s with machine := m', debugger := d', phase := .asking report } ∧
      s.debugger.Shows (report.report ++ promptText) d' := by
  obtain ⟨d', hannounce, hd⟩ := Debugger.exists_announce h.screen report
  refine ⟨d', ?_, hd⟩
  rw [step_of_executing h.running hp, advance_of_next hnext, hannounce]
  rfl

/-- A session that does not suspend any more executes the next instruction. -/
lemma step_silent (h : s.Attended radius) (hp : s.phase = .executing false)
    (hnext : s.machine.next = (.ok report, m')) :
    s.step = .running { s with machine := m' } := by
  rw [step_of_executing h.running hp, advance_of_next hnext]
  rfl

/-- A session that waits for the operator takes the next command and reacts to it. -/
lemma step_asking (h : s.Attended radius) (hp : s.phase = .asking report)
    (hdp : report.dp = s.machine.dp) (hlines : s.debugger.commands.Says script) :
    ∃ d', Debugger.Shows { s.debugger with commands := s.debugger.commands.nextLine.2 }
        (Debugger.echo radius s.machine.dp s.machine.tape script.head?) d' ∧
      s.step =
        match Debugger.reply script.head? with
        | .failed cause => .ended (.error (.io cause)) { s with debugger := d' }
        | .again => .running { s with debugger := d' }
        | .resume how => { s with debugger := d' }.resume how := by
  obtain rfl := h.radius
  obtain ⟨d', hanswer, hd⟩ :=
    Debugger.exists_answer h.screen hlines.nextCommand report.dp s.machine.tape
  rw [hdp] at hd
  refine ⟨d', hd, ?_⟩
  rw [step_of_asking h.running h.separate hp, hanswer]
  cases Debugger.reply script.head? <;> rfl

/-- A session stays attended while its debugger shows something and its machine does not finish. -/
lemma of_shows (h : s.Attended radius) {commands : Reader} {text : String} {d' : Debugger}
    (hd : Debugger.Shows { s.debugger with commands } text d') (hf : m'.finished = false)
    (phase : Phase) : Attended radius ⟨m', d', s.wiring, phase⟩ :=
  ⟨h.separate, hf, hd.screen, hd.radius.trans h.radius⟩

/-! ## Several steps -/

/-- **A suspension ends** with the next answer of the script, or with the rest of the program if
there is none. Then the script has one answer less.

**Proof sketch.** Induction on the script. A print leads to the next question. -/
theorem exists_resume (h : s.Attended radius) (hp : s.phase = .asking report)
    (hdp : report.dp = s.machine.dp) (hlines : s.debugger.commands.Says script) :
    ∃ s₁ s₂ : Session, Progress.Reaches Session.step s s₁ ∧
      s₁.step = s₂.resume ((answers script).head?.getD .proceed) ∧
      s₂.Attended radius ∧ s₂.machine = s.machine ∧
      (answers script ≠ [] →
        ∃ rest, s₂.debugger.commands.Says rest ∧ answers rest = (answers script).tail) := by
  induction script generalizing s with
  | nil =>
    obtain ⟨d', hd, hstep⟩ := h.step_asking hp hdp hlines
    exact ⟨s, { s with debugger := d' }, .refl s, hstep, h.of_shows hd h.running _, rfl,
      fun hne => absurd rfl hne⟩
  | cons command script ih =>
    obtain ⟨d', hd, hstep⟩ := h.step_asking hp hdp hlines
    have hs' := h.of_shows hd h.running s.phase
    have hrest : d'.commands.Says script := hd.commands ▸ hlines.rest
    cases command with
    | print =>
      obtain ⟨s₁, s₂, hreach, hresume⟩ := ih hs' hp hdp hrest
      exact ⟨s₁, s₂, .running hstep hreach, hresume⟩
    | step | unknown | proceed | quit =>
      exact ⟨s, { s with debugger := d' }, .refl s, hstep, hs', rfl, fun _ => ⟨script, hrest, rfl⟩⟩

/-- **A session makes the walks of its machine** while its script asks for steps.

**Proof sketch.** Induction on the walk. Behind each of its steps the session suspends, and the next
answer of the script leads on. -/
theorem exists_suspending (h : s.Attended radius) (hp : s.phase = .executing true)
    (hlines : s.debugger.commands.Says script) (hwalk : Walk s.machine steps m')
    {rest : List Resume} (hrest : answers script = List.replicate steps.length .step ++ rest) :
    ∃ s', Progress.Reaches Session.step s s' ∧ s'.Attended radius ∧ s'.phase = .executing true ∧
      s'.machine = m' ∧ ∃ script', s'.debugger.commands.Says script' ∧ answers script' = rest := by
  generalize hm : s.machine = m at hwalk
  induction hwalk generalizing s script with
  | nil m => exact ⟨s, .refl s, h, hp, hm, script, hlines, hrest⟩
  | @cons m m₁ m' report steps hnext _ ih =>
    subst hm
    have hdp : report.dp = m₁.dp := by
      obtain ⟨-, i, -, -, rfl⟩ := next_eq_ok_iff.mp hnext
      rfl
    -- the instruction is reported
    obtain ⟨d', hstep, hd⟩ := h.step_suspending hp hnext
    have h₁ := h.of_shows hd (h.finished_next hnext) (.asking report)
    -- and the operator asks for another step
    have hanswers : answers script = .step :: (List.replicate steps.length .step ++ rest) := hrest
    obtain ⟨s₁, s₂, hreach, hresume, h₂, hm₂, hscript⟩ :=
      h₁.exists_resume rfl hdp (hd.commands ▸ hlines)
    rw [hanswers] at hresume hscript
    obtain ⟨script', hlines', hrest'⟩ := hscript (List.cons_ne_nil _ _)
    have h₃ : Attended radius { s₂ with phase := .executing true } := { h₂ with }
    obtain ⟨s', hreach', hs'⟩ := ih h₃ rfl hlines' hrest' hm₂
    have hto₂ : Progress.Reaches Session.step s { s₂ with phase := .executing true } :=
      (Progress.Reaches.running hstep hreach).trans (.single hresume)
    exact ⟨s', hto₂.trans hreach', hs'⟩

/-- A session that does not suspend any more makes every walk of its machine. -/
lemma exists_silent (h : s.Attended radius) (hp : s.phase = .executing false)
    (hwalk : Walk s.machine steps m') :
    ∃ s', Progress.Reaches Session.step s s' ∧ s'.Attended radius ∧ s'.phase = .executing false ∧
      s'.machine = m' := by
  generalize hm : s.machine = m at hwalk
  induction hwalk generalizing s with
  | nil m => exact ⟨s, .refl s, h, hp, hm⟩
  | @cons m m₁ m' report steps hnext _ ih =>
    subst hm
    have h₁ : Attended radius { s with machine := m₁ } :=
      { h with running := h.finished_next hnext }
    obtain ⟨s', hreach, hs'⟩ := ih h₁ hp rfl
    exact ⟨s', .running (h.step_silent hp hnext) hreach, hs'⟩

end Attended

/-! ## Stages -/

/-- How far a session `s` of the machine `m` and the debugger `d` has followed a script: the steps
that it has made, the answers that are left, and what is still to be seen of the transcript. -/
inductive Stage (m : Machine) (d : Debugger) (script : List Command) (s : Session) : Prop
  /-- The session is going to suspend behind the next instruction. Every step so far has been asked
  for. -/
  | suspending {steps : List Step} {rest : List Command} (phase : s.phase = .executing true)
    (walk : Walk m steps s.machine) (lines : s.debugger.commands.Says rest)
    (answered : answers script = List.replicate steps.length .step ++ answers rest)
    (shown : s.debugger.shown ++ Text.encode (s.machine.transcript d.radius rest) =
      d.shown ++ Text.encode (m.transcript d.radius script))
  /-- The session is suspended behind an instruction. Every step but the last one has been asked
  for after an earlier instruction. -/
  | asking {steps : List Step} {report : Step} {rest : List Command}
    (phase : s.phase = .asking report) (walk : Walk m (steps ++ [report]) s.machine)
    (lines : s.debugger.commands.Says rest)
    (answered : answers script = List.replicate steps.length .step ++ answers rest)
    (shown : s.debugger.shown ++ Text.encode (s.machine.dialogue d.radius rest) =
      d.shown ++ Text.encode (m.transcript d.radius script))
  /-- The session does not suspend any more: the script has asked for the rest of the program, or
  has ended, at an earlier suspension. Nothing is shown any more. -/
  | silent {steps : List Step} {n : Nat} (phase : s.phase = .executing false)
    (walk : Walk m steps s.machine) (lt : n < steps.length)
    (answered : answers script = List.replicate n .step ∨
      ∃ rest, answers script = List.replicate n .step ++ .proceed :: rest)
    (shown : s.debugger.shown = d.shown ++ Text.encode (m.transcript d.radius script))

/-- A machine gets to where the operator quits: behind some steps that were asked for, and an
instruction after which the answer is to quit. -/
structure Quits (m : Machine) (answers : List Resume) (steps : List Step) (report : Step)
    (m' : Machine) : Prop where
  walk : Walk m (steps ++ [report]) m'
  answered : ∃ rest, answers = List.replicate steps.length .step ++ .quit :: rest

/-- How a session of the machine `m` and the debugger `d` ends that follows a script. -/
inductive Ending (m : Machine) (d : Debugger) (script : List Command) (r : Except Fault Exit)
    (s : Session) : Prop
  /-- The first answer that is no step ends the session, which leaves the machine where it is. -/
  | quit {steps : List Step} {report : Step} {m₁ : Machine} (result : r = .ok .quit)
    (quits : Quits m (answers script) steps report m₁)
    (machine : s.machine = { m₁ with finished := true })
    (shown : s.debugger.shown = d.shown ++ Text.encode (m.transcript d.radius script))
  /-- The session ends where a run ends. -/
  | ended {steps : List Step} {m₁ : Machine} {r₀ : Except Fault Stats}
    (result : r = r₀.map .completed) (walk : Walk m steps m₁)
    (ended : m₁.advance = .ended r₀ s.machine)
    (shown : s.debugger.shown = d.shown ++ Text.encode (m.transcript d.radius script))

/-- **One step of a session that follows a script** leads to the next stage, or to the end. -/
theorem Stage.step (hstage : Stage m d script s) (h : s.Attended d.radius) :
    (∃ s', s.step = .running s' ∧ s'.Attended d.radius ∧ Stage m d script s') ∨
      ∃ r s', s.step = .ended r s' ∧ Ending m d script r s' := by
  cases hstage with
  | @suspending steps rest phase walk lines answered shown =>
    cases ha : s.machine.advance with
    | running m₁ =>
      obtain ⟨report, hnext⟩ := (advance_eq_running_iff_next h.running).mp ha
      obtain ⟨d', hstep, hd⟩ := h.step_suspending phase hnext
      rw [transcript, reporting_of_next hnext] at shown
      exact Or.inl ⟨_, hstep, h.of_shows hd (h.finished_next hnext) _,
        .asking rfl (walk.append (.single hnext)) (hd.commands ▸ lines) answered
          (hd.shown_append shown)⟩
    | ended r m₁ =>
      rw [transcript, reporting_of_ended h.running ha] at shown
      exact Or.inr ⟨_, _, h.step_ended phase ha,
        .ended rfl walk ha ((List.append_nil _).symm.trans shown)⟩
  | @asking steps report rest phase walk lines answered shown =>
    obtain ⟨-, -, -, hdp⟩ := walk.exists_of_concat
    obtain ⟨d', hd, hstep⟩ := h.step_asking phase hdp lines
    have hs' := fun phase => h.of_shows hd h.running phase
    have hlength : (steps ++ [report]).length = steps.length + 1 := by simp
    cases rest with
    | nil =>
      refine Or.inl ⟨_, hstep, hs' _, .silent rfl walk (n := steps.length) (by omega) ?_ ?_⟩
      · exact Or.inl (answered.trans (List.append_nil _))
      · exact hd.shown.trans shown
    | cons command rest =>
      have hrest : d'.commands.Says rest := hd.commands ▸ lines.rest
      cases command with
      | print =>
        exact Or.inl ⟨_, hstep, hs' _, .asking phase walk hrest answered (hd.shown_append shown)⟩
      | step | unknown =>
        refine Or.inl ⟨_, hstep, hs' _, .suspending rfl walk hrest ?_ (hd.shown_append shown)⟩
        rw [hlength, List.replicate_succ', List.append_assoc]
        exact answered
      | proceed =>
        refine Or.inl ⟨_, hstep, hs' _, .silent rfl walk (n := steps.length) (by omega) ?_ ?_⟩
        · exact Or.inr ⟨_, answered⟩
        · exact (List.append_nil _).symm.trans (hd.shown_append shown)
      | quit =>
        refine Or.inr ⟨_, _, hstep, .quit rfl ⟨walk, _, answered⟩ rfl ?_⟩
        exact (List.append_nil _).symm.trans (hd.shown_append shown)
  | @silent steps n phase walk lt answered shown =>
    cases ha : s.machine.advance with
    | running m₁ =>
      obtain ⟨report, hnext⟩ := (advance_eq_running_iff_next h.running).mp ha
      refine Or.inl ⟨_, h.step_silent phase hnext, { h with running := h.finished_next hnext },
        .silent phase (walk.append (.single hnext)) (n := n) ?_ answered shown⟩
      rw [List.length_append]
      omega
    | ended r m₁ => exact Or.inr ⟨_, _, h.step_ended phase ha, .ended rfl walk ha shown⟩

/-! ## Whole sessions -/

/-- A session is attended from its start, and stands at the first stage of its script. -/
lemma stage_start (hf : m.finished = false) (hscreen : d.screen.Reliable)
    (hlines : d.commands.Says script) :
    (start m d .separate).Attended d.radius ∧ Stage m d script (start m d .separate) :=
  ⟨⟨rfl, hf, hscreen, rfl⟩, .suspending rfl (.nil m) hlines rfl rfl⟩

/-- **Whatever a session reaches that follows a script is a stage of the script.** -/
theorem Stage.of_reaches (hstage : Stage m d script s) (h : s.Attended d.radius)
    (hreach : Progress.Reaches Session.step s s') : s'.Attended d.radius ∧ Stage m d script s' := by
  induction hreach with
  | refl => exact ⟨h, hstage⟩
  | running hs _ ih =>
    rcases hstage.step h with ⟨s₂, hstep, h₂, hstage₂⟩ | ⟨r, s₂, hstep, -⟩
    · rw [hs] at hstep
      cases hstep
      exact ih hstage₂ h₂
    · rw [hs] at hstep
      cases hstep

/-- What a session leads to that follows a script is an ending of the script. -/
lemma Stage.ending (hstage : Stage m d script s) (h : s.Attended d.radius) {r : Except Fault Exit}
    (hr : s.RunsTo r s') : Ending m d script r s' := by
  obtain ⟨s₁, hreach, hend⟩ := runsTo_iff_reaches.mp hr
  obtain ⟨h₁, hstage₁⟩ := hstage.of_reaches h hreach
  rcases hstage₁.step h₁ with ⟨s₂, hstep, -⟩ | ⟨r', s₂, hstep, hending⟩
  · rw [hend] at hstep
    cases hstep
  · rw [hend] at hstep
    cases hstep
    exact hending

/-- Some steps stand in front of the first answer that is none. -/
lemma exists_replicate_append (answers : List Resume) :
    ∃ n rest, answers = List.replicate n .step ++ rest ∧ rest.head? ≠ some .step := by
  induction answers with
  | nil => exact ⟨0, [], rfl, by simp⟩
  | cons answer answers ih =>
    by_cases ha : answer = .step
    · obtain ⟨n, rest, rfl, hrest⟩ := ih
      exact ⟨n + 1, rest, by rw [ha, List.replicate_succ, List.cons_append], hrest⟩
    · exact ⟨0, answer :: answers, rfl, by simpa using ha⟩

section

variable (hf : m.finished = false) (hscreen : d.screen.Reliable) (hlines : d.commands.Says script)

include hf hscreen hlines

/-- **A session suspends behind every instruction** before which only steps were asked for, and the
answers that are left are those behind these steps. -/
theorem exists_asking {rest : List Resume} (hwalk : Walk m (steps ++ [report]) m')
    (hrest : answers script = List.replicate steps.length .step ++ rest) :
    ∃ s, Progress.Reaches Session.step (start m d .separate) s ∧ s.Attended d.radius ∧
      s.phase = .asking report ∧ s.machine = m' ∧
      ∃ script', s.debugger.commands.Says script' ∧ answers script' = rest := by
  obtain ⟨h, -⟩ := stage_start hf hscreen hlines
  obtain ⟨m₁, hfirst, hnext, -⟩ := hwalk.exists_of_concat
  obtain ⟨s₁, hreach, h₁, hp, rfl, script', hlines', hrest'⟩ :=
    h.exists_suspending rfl hlines hfirst hrest
  obtain ⟨d', hstep, hd⟩ := h₁.step_suspending hp hnext
  exact ⟨_, hreach.trans (.single hstep), h₁.of_shows hd (h₁.finished_next hnext) _, rfl, rfl,
    script', hd.commands ▸ hlines', hrest'⟩

/-- **A suspension leads to what the next answer asks for**, or to the rest of the program if there
is none. -/
theorem exists_resumed {rest : List Resume} (hwalk : Walk m (steps ++ [report]) m')
    (hrest : answers script = List.replicate steps.length .step ++ rest) :
    ∃ s₁ s₂ : Session, Progress.Reaches Session.step (start m d .separate) s₁ ∧
      s₁.step = s₂.resume (rest.head?.getD .proceed) ∧ s₂.Attended d.radius ∧ s₂.machine = m' := by
  obtain ⟨s, hreach, h, hp, rfl, script', hlines', rfl⟩ :=
    exists_asking hf hscreen hlines hwalk hrest
  obtain ⟨-, -, -, hdp⟩ := hwalk.exists_of_concat
  obtain ⟨s₁, s₂, hreach', hstep, h₂, hm, -⟩ := h.exists_resume hp hdp hlines'
  exact ⟨s₁, s₂, hreach.trans hreach', hstep, h₂, hm⟩

/-- **A session ends by quitting** exactly if the machine gets to where the operator quits, and it
leaves the machine there. -/
theorem quits_iff :
    (∃ s', (start m d .separate).RunsTo (.ok .quit) s' ∧ s'.machine = m') ↔
      ∃ steps report m₁, Quits m (answers script) steps report m₁ ∧
        m' = { m₁ with finished := true } := by
  constructor
  · rintro ⟨s', hr, rfl⟩
    obtain ⟨h, hstage⟩ := stage_start hf hscreen hlines
    cases hstage.ending h hr with
    | quit _ quits machine _ => exact ⟨_, _, _, quits, machine⟩
    | @ended _ _ r₀ result => cases r₀ <;> cases result
  · rintro ⟨steps, report, m₁, ⟨hwalk, rest, hanswers⟩, rfl⟩
    obtain ⟨s₁, s₂, hreach, hstep, h₂, rfl⟩ := exists_resumed hf hscreen hlines hwalk hanswers
    exact ⟨_, runsTo_iff_reaches.mpr ⟨s₁, hreach, hstep⟩, rfl⟩

/-- A session makes the walk of its machine unless this leads past where the operator quits. -/
lemma exists_executing (hquit : ∀ steps report m₁, ¬ Quits m (answers script) steps report m₁)
    (hwalk : Walk m steps m') :
    ∃ s suspending, Progress.Reaches Session.step (start m d .separate) s ∧
      s.Attended d.radius ∧ s.phase = .executing suspending ∧ s.machine = m' := by
  obtain ⟨h, -⟩ := stage_start hf hscreen hlines
  obtain ⟨n, rest, hanswers, hrest⟩ := exists_replicate_append (answers script)
  rcases le_or_gt steps.length n with hle | hlt
  · -- only steps are asked for on the way
    have hsplit : answers script =
        List.replicate steps.length .step ++ (List.replicate (n - steps.length) .step ++ rest) := by
      rw [← List.append_assoc, ← List.replicate_add, Nat.add_sub_cancel' hle]
      exact hanswers
    obtain ⟨s, hreach, hs, hp, hm, -⟩ := h.exists_suspending rfl hlines hwalk hsplit
    exact ⟨s, true, hreach, hs, hp, hm⟩
  · -- the session stops suspending on the way
    obtain ⟨first, report, later, rfl, rfl⟩ : ∃ first report later,
        steps = first ++ [report] ++ later ∧ first.length = n :=
      ⟨steps.take n, steps[n], steps.drop (n + 1), by simp, by simpa using hlt.le⟩
    obtain ⟨m₁, hfirst, hlater⟩ := hwalk.exists_of_append
    obtain ⟨s₁, s₂, hreach, hstep, h₂, rfl⟩ := exists_resumed hf hscreen hlines hfirst hanswers
    have hproceed : rest.head?.getD .proceed = .proceed := by
      match rest with
      | [] | .proceed :: _ => rfl
      | .step :: _ => exact absurd rfl hrest
      | .quit :: _ => exact absurd ⟨hfirst, _, hanswers⟩ (hquit _ _ _)
    rw [hproceed] at hstep
    have h₃ : Attended d.radius { s₂ with phase := .executing false } := { h₂ with }
    obtain ⟨s, hreach', hs, hp, hm⟩ := h₃.exists_silent rfl hlater
    exact ⟨s, false, (hreach.trans (.single hstep)).trans hreach', hs, hp, hm⟩

/-- **A session ends as the run does** if the machine does not get to where the operator quits. -/
theorem completes_iff (hquit : ∀ steps report m₁, ¬ Quits m (answers script) steps report m₁)
    {r : Except Fault Exit} :
    (∃ s', (start m d .separate).RunsTo r s' ∧ s'.machine = m') ↔
      ∃ r₀, m.RunsTo r₀ m' ∧ r = r₀.map .completed := by
  constructor
  · rintro ⟨s', hr, rfl⟩
    obtain ⟨h, hstage⟩ := stage_start hf hscreen hlines
    cases hstage.ending h hr with
    | quit _ quits => exact absurd quits (hquit _ _ _)
    | ended result walk hend _ =>
      exact ⟨_, (runsTo_iff_walk hf).mpr ⟨_, _, walk, hend⟩, result⟩
  · rintro ⟨r₀, hr, rfl⟩
    obtain ⟨steps, m₁, hwalk, hend⟩ := (runsTo_iff_walk hf).mp hr
    obtain ⟨s, suspending, hreach, h, hp, rfl⟩ :=
      exists_executing hf hscreen hlines hquit hwalk
    exact ⟨_, runsTo_iff_reaches.mpr ⟨s, hreach, h.step_ended hp hend⟩, rfl⟩

/-- **How a session ends depends on the answers only**: it quits, or it ends as the run does. -/
theorem runsTo_iff_of_answers {r : Except Fault Exit} :
    (∃ s', (start m d .separate).RunsTo r s' ∧ s'.machine = m') ↔
      (∃ steps report m₁, Quits m (answers script) steps report m₁ ∧ r = .ok .quit ∧
        m' = { m₁ with finished := true }) ∨
      (∀ steps report m₁, ¬ Quits m (answers script) steps report m₁) ∧
        ∃ r₀, m.RunsTo r₀ m' ∧ r = r₀.map .completed := by
  by_cases hquit : ∃ steps report m₁, Quits m (answers script) steps report m₁
  · obtain ⟨steps, report, m₁, hq⟩ := hquit
    obtain ⟨s₁, hs₁, -⟩ := (quits_iff hf hscreen hlines).mpr ⟨steps, report, m₁, hq, rfl⟩
    constructor
    · rintro ⟨s', hr, hm⟩
      obtain ⟨rfl, -⟩ := hr.unique hs₁
      obtain ⟨steps', report', m₂, hq', hm'⟩ := (quits_iff hf hscreen hlines).mp ⟨s', hr, hm⟩
      exact Or.inl ⟨steps', report', m₂, hq', rfl, hm'⟩
    · rintro (⟨steps', report', m₂, hq', rfl, hm'⟩ | ⟨hnone, -⟩)
      · exact (quits_iff hf hscreen hlines).mpr ⟨steps', report', m₂, hq', hm'⟩
      · exact absurd hq (hnone steps report m₁)
  · have hnone : ∀ steps report m₁, ¬ Quits m (answers script) steps report m₁ := by
      intro steps report m₁ hq
      exact hquit ⟨steps, report, m₁, hq⟩
    rw [completes_iff hf hscreen hlines hnone]
    constructor
    · intro hr
      exact Or.inr ⟨hnone, hr⟩
    · rintro (⟨steps, report, m₁, hq, -⟩ | ⟨-, hr⟩)
      · exact absurd hq (hnone steps report m₁)
      · exact hr

end

/-- What a script decides about a session of a machine and a debugger. -/
structure FollowsScript (m : Machine) (d : Debugger) (script : List Command) : Prop where
  /-- Whatever the session reaches is a stage of the script. In particular it is suspended only
  behind instructions before which nothing but steps was asked for, each suspension takes one
  answer, and once an answer is no step nothing more is shown. -/
  stage : ∀ s, Progress.Reaches Session.step (start m d .separate) s → Stage m d script s
  /-- It does suspend behind every such instruction, and asks about the report that a single step
  gives of it. -/
  suspends : ∀ steps report m₁ rest, Walk m (steps ++ [report]) m₁ →
    answers script = List.replicate steps.length .step ++ rest →
    ∃ s, Progress.Reaches Session.step (start m d .separate) s ∧ s.phase = .asking report ∧
      s.machine = m₁
  /-- If it ends it has shown the transcript. -/
  transcript : ∀ r s', (start m d .separate).RunsTo r s' →
    s'.debugger.shown = d.shown ++ Text.encode (m.transcript d.radius script)
  /-- It ends by quitting exactly if the machine gets to where the operator quits. -/
  quits : (∃ s', (start m d .separate).RunsTo (.ok .quit) s') ↔
    ∃ steps report m₁, Quits m (answers script) steps report m₁
  /-- Then it has executed the instructions up to there and marked the machine as finished, while
  the sink is as the last instruction has left it. -/
  quit : ∀ steps report m₁ s', Quits m (answers script) steps report m₁ →
    (start m d .separate).RunsTo (.ok .quit) s' →
    s'.machine = { m₁ with finished := true } ∧
      s'.machine.executed = m.executed + (steps.length + 1)
  /-- Otherwise it ends exactly when a run does, with the same machine and for the same reason. -/
  completes : (∀ steps report m₁, ¬ Quits m (answers script) steps report m₁) → ∀ r m',
    (∃ s', (start m d .separate).RunsTo r s' ∧ s'.machine = m') ↔
      ∃ r₀, m.RunsTo r₀ m' ∧ r = r₀.map .completed
  /-- Prints, the spelling of steps and the radius do not matter: a script with the same answers
  leads to the same end with the same machine. -/
  determined : ∀ (d' : Debugger) script', d'.screen.Reliable → d'.commands.Says script' →
    answers script' = answers script → ∀ r m',
      (∃ s', (start m d' .separate).RunsTo r s' ∧ s'.machine = m') ↔
        ∃ s', (start m d .separate).RunsTo r s' ∧ s'.machine = m'

end Session

end TapeMachine

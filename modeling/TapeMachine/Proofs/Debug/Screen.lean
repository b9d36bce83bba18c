import Mathlib.Tactic
import TapeMachine.Proofs.Debug.Operator
import TapeMachine.Proofs.Debug.Sharing

/-!
# Screens

A step of a session shows a text, whatever screen it has. If the screen has room for the text the
step leads to the same on every screen. If not, the screen shows as much as it has room for, and the
session ends in the middle of the text.

## Main definitions

* `TapeMachine.Writer.Limited` — a writer that has room for so many bytes.
* `TapeMachine.Screens` — a kind of screens, by how much they have room for.
* `TapeMachine.Screens.reliable`, `TapeMachine.Screens.upTo` — screens that never fail, and screens
  that have room for so many bytes.
* `TapeMachine.Screens.Shows` — something shows a text on the screens of a kind.
* `TapeMachine.Session.withScreen` — a session with another screen.

## Main results

* `TapeMachine.Debugger.shows_announce`, `TapeMachine.Debugger.shows_react` — what a debugger shows.
* `TapeMachine.Session.exists_step_shows` — what a step of a session shows, on the screens of every
  kind.
* `TapeMachine.Session.exists_step_screen` — a step shows the same on every screen that never fails.
-/

set_option autoImplicit false

namespace TapeMachine

/-! ## Writers with little room -/

namespace Writer

/-- Without a plan a buffer is written at once, unless it is empty. -/
lemma writeAll_of_plan_nil {w : Writer} (h : w.plan = []) (buffer : List UInt8) :
    w.writeAll buffer = if buffer = [] then (.ok (), w) else w.writeRest buffer := by
  obtain ⟨plan, flushPlan, capacity, whenFull, accepted, log⟩ := w
  obtain rfl : plan = [] := h
  cases buffer <;> rfl

/-- A writer has room for `c` bytes, and nothing else can fail. It has been given some bytes, of
which it has accepted those that it had room for. -/
structure Limited (c : Nat) (given : List UInt8) (w : Writer) : Prop where
  plan : w.plan = []
  flushPlan : w.flushPlan = []
  capacity : w.capacity = some c
  whenFull : w.whenFull = .sinkFull
  accepted : w.accepted.toList = given.take c

namespace Limited

variable {c : Nat} {given : List UInt8} {w : Writer}

/-- A writer that is full accepts nothing more. -/
lemma append (h : w.Limited c given) (hfull : c ≤ given.length) (more : List UInt8) :
    w.Limited c (given ++ more) where
  plan := h.plan
  flushPlan := h.flushPlan
  capacity := h.capacity
  whenFull := h.whenFull
  accepted := by rw [h.accepted, List.take_append_of_le_length hfull]

/-- A refusal leaves the bytes that have been accepted as they are. -/
lemma refuse (h : w.Limited c given) : ∃ w', w.refuse = (.sinkFull, w') ∧ w'.Limited c given :=
  ⟨w.refuse.2, congrArg (·, w.refuse.2) h.whenFull, h.plan, h.flushPlan, h.capacity, h.whenFull,
    h.accepted⟩

/-- A writer that has not been given more than it has room for has accepted all of it. -/
lemma accepted_eq (h : w.Limited c given) (hfits : given.length ≤ c) :
    w.accepted.toList = given := by
  rw [h.accepted, List.take_of_length_le hfits]

/-- An attempt that finds some room accepts as much of a buffer as fits. -/
lemma exists_accept (h : w.Limited c given) (hroom : given.length < c) (buffer : List UInt8) :
    ∃ w', w.accept buffer buffer.length =
        (.ok (min buffer.length (c - given.length)), w') ∧ w'.Limited c (given ++ buffer) := by
  have hgiven := h.accepted_eq hroom.le
  have hsize : w.accepted.size = given.length := by rw [← hgiven, Array.length_toList]
  have htake : buffer.take (min buffer.length (c - given.length)) =
      buffer.take (c - given.length) := by
    rw [← List.take_take, List.take_of_length_le (List.length_take_le' _ _)]
  refine ⟨{ w with
    accepted := w.accepted ++ buffer.take (c - given.length)
    log := w.log.push (.accepted (buffer.take (c - given.length))) }, ?_,
    h.plan, h.flushPlan, h.capacity, h.whenFull, ?_⟩
  · simp only [accept, h.capacity, hsize, if_neg (Nat.not_le_of_lt hroom), htake,
      List.length_take]
    rw [Nat.min_comm]
  · rw [List.take_append, List.take_of_length_le hroom.le]
    simp [hgiven]

/-- A writer that still has room accepts as much of a buffer as fits. -/
lemma exists_writeRest (h : w.Limited c given) (hfits : given.length ≤ c) {buffer : List UInt8}
    (hbuffer : buffer ≠ []) :
    ∃ w', w.writeRest buffer =
        (if (given ++ buffer).length ≤ c then .ok () else .error .sinkFull, w') ∧
      w'.Limited c (given ++ buffer) := by
  have hpos := List.length_pos_iff.mpr hbuffer
  rw [List.length_append]
  rcases Nat.lt_or_ge given.length c with hroom | hfull
  · obtain ⟨w₁, haccept, hw₁⟩ := h.exists_accept hroom buffer
    by_cases hmore : given.length + buffer.length ≤ c
    · refine ⟨w₁, ?_, hw₁⟩
      simp only [writeRest, haccept]
      rw [if_neg (by omega), if_pos hmore]
    · obtain ⟨w₂, hrefuse, hw₂⟩ := hw₁.refuse
      refine ⟨w₂, ?_, hw₂⟩
      simp only [writeRest, haccept, hrefuse]
      rw [if_pos (by omega), if_neg hmore]
  · -- there is no room at all
    obtain ⟨w₁, hrefuse, hw₁⟩ := h.refuse
    have hsize : w.accepted.size = given.length := by
      rw [← h.accepted_eq hfits, Array.length_toList]
    refine ⟨w₁, ?_, hw₁.append hfull buffer⟩
    simp only [writeRest, accept, h.capacity, hsize, if_pos hfull, hrefuse]
    rw [if_neg (by omega)]

/-- A writer that still has room accepts as much as fits, and fails if that is not all. -/
lemma exists_writeAll (h : w.Limited c given) (hfits : given.length ≤ c) (buffer : List UInt8) :
    ∃ w', w.writeAll buffer =
        (if (given ++ buffer).length ≤ c then .ok () else .error .sinkFull, w') ∧
      w'.Limited c (given ++ buffer) := by
  rw [writeAll_of_plan_nil h.plan]
  by_cases hbuffer : buffer = []
  · subst hbuffer
    rw [List.append_nil, if_pos rfl, if_pos hfits]
    exact ⟨w, rfl, h⟩
  · rw [if_neg hbuffer]
    exact h.exists_writeRest hfits hbuffer

/-- A request to pass bytes on succeeds, full or not. -/
lemma exists_flush (h : w.Limited c given) : ∃ w', w.flush = (.ok (), w') ∧ w'.Limited c given :=
  ⟨{ w with log := w.log.push .flushed }, by simp only [flush, h.flushPlan],
    h.plan, h.flushPlan, h.capacity, h.whenFull, h.accepted⟩

end Limited

end Writer

/-! ## Kinds of screens -/

/-- A kind of screens. A screen takes what it is given to show as long as there is room for it, and
fails where there is none. -/
structure Screens where
  /-- A screen has been given these bytes to show. -/
  Given : List UInt8 → Writer → Prop
  /-- Whether there is room for these bytes. -/
  fits : List UInt8 → Bool
  /-- The failure of a screen that has no room. -/
  cause : IoError
  /-- More bytes are taken if there is room for them. -/
  writeAll : ∀ {shown w}, Given shown w → fits shown = true → ∀ bytes, ∃ w',
    w.writeAll bytes = (if fits (shown ++ bytes) then .ok () else .error cause, w') ∧
      Given (shown ++ bytes) w'
  /-- A request to pass bytes on succeeds. -/
  flush : ∀ {shown w}, Given shown w → ∃ w', w.flush = (.ok (), w') ∧ Given shown w'
  /-- Where there is no room it makes no difference what was to follow. -/
  full : ∀ {shown w}, Given shown w → fits shown = false → ∀ more,
    fits (shown ++ more) = false ∧ Given (shown ++ more) w

namespace Screens

/-- The screens that never fail. -/
def reliable : Screens where
  Given shown w := w.Reliable ∧ w.accepted.toList = shown
  fits _ := true
  cause := .sinkFull
  writeAll := by
    rintro _ w ⟨hw, rfl⟩ - bytes
    obtain ⟨w', hwrite, hw'⟩ := hw.exists_writeAll bytes
    exact ⟨w', hwrite, hw', Writer.accepted_of_writeAll hwrite⟩
  flush := by
    rintro _ w ⟨hw, rfl⟩
    obtain ⟨w', hflush, hw'⟩ := hw.exists_flush
    refine ⟨w', hflush, hw', ?_⟩
    rw [← Writer.accepted_flush w, hflush]
  full := by simp

/-- The screens that have room for `c` bytes. -/
def upTo (c : Nat) : Screens where
  Given shown w := w.Limited c shown
  fits shown := shown.length ≤ c
  cause := .sinkFull
  writeAll := by
    intro shown w h hfits bytes
    simpa using h.exists_writeAll (of_decide_eq_true hfits) bytes
  flush := fun h => h.exists_flush
  full := by
    intro shown w h hfull more
    have hlt : c < shown.length := Nat.lt_of_not_le (of_decide_eq_false hfull)
    refine ⟨decide_eq_false ?_, h.append hlt.le more⟩
    rw [List.length_append]
    omega

/-- On the screens of a kind, something shows a text: as much of it as there is room for. It comes
to one end if this is all of it, and fails otherwise. -/
def Shows (k : Screens) {α : Type} (on : Writer → α) (text : String) (done failed : Writer → α) :
    Prop :=
  ∀ shown w, k.Given shown w → k.fits shown = true → ∃ w',
    k.Given (shown ++ Text.encode text) w' ∧
      on w = if k.fits (shown ++ Text.encode text) then done w' else failed w'

variable {k : Screens} {α β : Type} {on : Writer → α} {first : Writer → β} {text text' : String}
  {done failed : Writer → α} {done₁ failed₁ : Writer → β}

/-- What leaves the screen as it is shows nothing. -/
lemma shows_empty (h : ∀ w, on w = done w) : k.Shows on "" done failed := by
  intro shown w hw hfits
  have hnil : shown ++ Text.encode "" = shown := List.append_nil _
  rw [hnil]
  exact ⟨w, hw, by rw [if_pos hfits, h]⟩

/-- What goes on from something that shows a text, and shows another one then, shows both. -/
lemma Shows.seq (h : k.Shows first text done₁ failed₁)
    (h' : k.Shows (fun w => on w) text' done failed) {all : Writer → α}
    (hdone : ∀ w w₁, first w = done₁ w₁ → all w = on w₁)
    (hfailed : ∀ w w₁, first w = failed₁ w₁ → all w = failed w₁) :
    k.Shows all (text ++ text') done failed := by
  intro shown w hw hfits
  obtain ⟨w₁, hw₁, hfirst⟩ := h shown w hw hfits
  rw [Text.encode_append, ← List.append_assoc]
  cases hroom : k.fits (shown ++ Text.encode text) with
  | true =>
    obtain ⟨w₂, hw₂, hsecond⟩ := h' _ w₁ hw₁ hroom
    rw [hroom, if_pos rfl] at hfirst
    exact ⟨w₂, hw₂, (hdone w w₁ hfirst).trans hsecond⟩
  | false =>
    obtain ⟨hnone, hw₂⟩ := k.full hw₁ hroom (Text.encode text')
    rw [hroom, if_neg Bool.false_ne_true] at hfirst
    refine ⟨w₁, hw₂, ?_⟩
    rw [hnone, if_neg Bool.false_ne_true]
    exact hfailed w w₁ hfirst

/-- What goes on from something that shows a text without showing more shows this text. -/
lemma Shows.of_eq (h : k.Shows first text done₁ failed₁)
    (hdone : ∀ w w₁, first w = done₁ w₁ → on w = done w₁)
    (hfailed : ∀ w w₁, first w = failed₁ w₁ → on w = failed w₁) :
    k.Shows on text done failed := by
  intro shown w hw hfits
  obtain ⟨w', hw', hfirst⟩ := h shown w hw hfits
  refine ⟨w', hw', ?_⟩
  split at hfirst <;> rename_i hroom
  · rw [if_pos hroom, hdone w w' hfirst]
  · rw [if_neg hroom, hfailed w w' hfirst]

end Screens

/-! ## What a debugger shows -/

namespace Debugger

/-- A debugger with another screen. -/
def withScreen (d : Debugger) (screen : Writer) : Debugger := { d with screen }

variable (k : Screens) (d : Debugger)

/-- A text is shown by writing it. -/
lemma shows_display (text : String) :
    k.Shows (fun w => (d.withScreen w).display text) text (fun w => (.ok (), d.withScreen w))
      fun w => (.error k.cause, d.withScreen w) := by
  intro shown w hw hfits
  obtain ⟨w', hwrite, hw'⟩ := k.writeAll hw hfits (Text.encode text)
  have hdisplay : (d.withScreen w).display text =
      ((w.writeAll (Text.encode text)).1, d.withScreen (w.writeAll (Text.encode text)).2) := rfl
  refine ⟨w', hw', hdisplay.trans ?_⟩
  rw [hwrite]
  split <;> rfl

/-- The question is shown, and passed on. -/
lemma shows_prompt :
    k.Shows (fun w => (d.withScreen w).prompt) promptText (fun w => (.ok (), d.withScreen w))
      fun w => (.error k.cause, d.withScreen w) := by
  have hflush : k.Shows
      (fun w => (w.flush.1, d.withScreen w.flush.2)) ""
      (fun w => (.ok (), d.withScreen w)) fun w => (.error k.cause, d.withScreen w) := by
    intro shown w hw hfits
    obtain ⟨w', hflush, hw'⟩ := k.flush hw
    have hnil : shown ++ Text.encode "" = shown := List.append_nil _
    rw [hnil]
    refine ⟨w', hw', ?_⟩
    simp only [if_pos hfits, hflush]
  refine (shows_display k d promptText).seq hflush (fun w w₁ h => ?_) fun w w₁ h => ?_
  · simp only [prompt, h]
    rfl
  · simp only [prompt, h]

/-- The report of an instruction is shown, and then the question. -/
theorem shows_announce (step : Step) :
    k.Shows (fun w => (d.withScreen w).announce step) (step.report ++ promptText)
      (fun w => (.ok (), d.withScreen w)) fun w => (.error k.cause, d.withScreen w) := by
  refine (shows_display k d step.report).seq (shows_prompt k d) (fun w w₁ h => ?_)
    fun w w₁ h => ?_ <;> simp only [announce, h]

/-- **A reaction to a command** shows what belongs to it. -/
theorem shows_react (dp : Int) (tape : Tape) (command? : Option Command) :
    k.Shows (fun w => (d.withScreen w).react dp tape command?) (echo d.radius dp tape command?)
      (fun w => (reply command?, d.withScreen w)) fun w => (.failed k.cause, d.withScreen w) := by
  have hthen : ∀ text how, k.Shows (fun w => (d.withScreen w).displayThen text how) text
      (fun w => (.resume how, d.withScreen w)) fun w => (.failed k.cause, d.withScreen w) := by
    intro text how
    refine (shows_display k d text).of_eq (fun w w₁ h => ?_) fun w w₁ h => ?_ <;>
      simp only [displayThen, h]
  cases command? with
  | none => exact hthen "\n" .proceed
  | some command =>
    cases command with
    | step | proceed | quit => exact Screens.shows_empty fun w => rfl
    | unknown text => exact hthen (unknownText text) .step
    | print =>
      have hagain : k.Shows (fun w => (d.withScreen w).promptAgain) promptText
          (fun w => (.again, d.withScreen w)) fun w => (.failed k.cause, d.withScreen w) := by
        refine (shows_prompt k d).of_eq (fun w w₁ h => ?_) fun w w₁ h => ?_ <;>
          simp only [promptAgain, h]
      refine (shows_display k d (windowText tape dp d.radius)).seq hagain (fun w w₁ h => ?_)
        fun w w₁ h => ?_
      all_goals
        have hradius : (d.withScreen w).radius = d.radius := rfl
        simp only [react, showWindow, hradius, h]

end Debugger

/-! ## What a step of a session shows -/

namespace Session

/-- A session with another screen. -/
def withScreen (s : Session) (screen : Writer) : Session :=
  { s with debugger := s.debugger.withScreen screen }

/-- On the screens of every kind a session gets somewhere by showing a text. If the screen has no
room for the text the session ends, with the machine as it would be otherwise. -/
structure ShowsOn (on : Writer → Result) (text : String) (r : Result) (cut : Session) : Prop where
  shows : ∀ k : Screens, k.Shows on text (fun w => r.map (·.withScreen w))
    fun w => .ended (.error (.io k.cause)) (cut.withScreen w)
  machine : text ≠ "" → ∃ s', r = .running s' ∧ cut.machine = s'.machine

/-- Nothing is shown where the screen is left as it is. -/
lemma showsOn_empty {on : Writer → Result} {r : Result} {cut : Session}
    (h : ∀ w, on w = r.map (·.withScreen w)) : ShowsOn on "" r cut :=
  ⟨fun _ => Screens.shows_empty h, fun hne => absurd rfl hne⟩

/-- An instruction is reported, or executed without a report. -/
lemma exists_advance_shows (s : Session) (suspending : Bool) :
    ∃ text r cut, ShowsOn (fun w => (s.withScreen w).advance suspending) text r cut := by
  have hmachine : ∀ w, (s.withScreen w).machine = s.machine := fun _ => rfl
  unfold advance
  simp only [hmachine]
  cases s.machine.instruction? with
  | none =>
    rcases s.machine.finish with ⟨fault | stats, m⟩
    · exact ⟨"", .ended (.error fault) { s with machine := m }, s, showsOn_empty fun w => rfl⟩
    · exact ⟨"", .ended (.ok (.completed stats)) { s with machine := m }, s,
        showsOn_empty fun w => rfl⟩
  | some i =>
    rcases s.machine.next with ⟨fault | report, m⟩
    · exact ⟨"", .ended (.error fault) { s with machine := m }, s, showsOn_empty fun w => rfl⟩
    · cases suspending with
      | false => exact ⟨"", .running { s with machine := m }, s, showsOn_empty fun w => rfl⟩
      | true =>
        refine ⟨report.report ++ promptText,
          .running { s with machine := m, phase := .asking report }, { s with machine := m },
          fun k => ?_, fun _ => ⟨_, rfl, rfl⟩⟩
        refine (Debugger.shows_announce k s.debugger report).of_eq (fun w w₁ h => ?_)
          fun w w₁ h => ?_
        · simp only [withScreen, h, if_true]
          rfl
        · simp only [withScreen, h, if_true]

/-- The operator of a session with another screen. -/
lemma operator_withScreen (s : Session) (w : Writer) :
    (s.withScreen w).operator = s.operator.withScreen w := by
  obtain ⟨m, d, wiring, phase⟩ := s
  cases wiring <;> rfl

/-- How a session goes on from an answer does not depend on its screen. -/
lemma heed_withScreen (s : Session) (w w' : Writer) (reply : Reply) (d : Debugger) :
    (s.withScreen w).heed (reply, d.withScreen w') = (s.heed (reply, d)).map (·.withScreen w') := by
  have hoperator : (s.withScreen w).withOperator (d.withScreen w') =
      (s.withOperator d).withScreen w' := by
    obtain ⟨m, d₀, wiring, phase⟩ := s
    cases wiring <;> rfl
  match reply with
  | .failed _ | .again | .resume .step | .resume .proceed | .resume .quit =>
    simp only [heed, hoperator]
    rfl

/-- A reaction that shows something lets the session go on, with the machine as it is. -/
lemma exists_heed_of_echo (s : Session) (d : Debugger) (dp : Int) (tape : Tape)
    {command? : Option Command} (h : Debugger.echo d.radius dp tape command? ≠ "") :
    ∃ s', s.heed (Debugger.reply command?, d) = .running s' ∧
      s'.machine = (s.withOperator d).machine := by
  cases command? with
  | none => exact ⟨_, rfl, rfl⟩
  | some command =>
    cases command with
    | print | unknown => exact ⟨_, rfl, rfl⟩
    | step | proceed | quit => exact absurd rfl h

/-- A line of the operator is answered. -/
lemma exists_heed_shows (s : Session) (dp : Int) (tape : Tape) :
    ∃ text r cut, ShowsOn
      (fun w => (s.withScreen w).heed ((s.operator.withScreen w).answer dp tape)) text r cut := by
  have htaken : ∀ w, (s.operator.withScreen w).nextCommand =
      (s.operator.nextCommand.1, s.operator.nextCommand.2.withScreen w) := fun _ => rfl
  simp only [Debugger.answer, htaken]
  rcases s.operator.nextCommand with ⟨cause | command?, d⟩
  · exact ⟨"", s.heed (.failed cause, d), s, showsOn_empty fun w => s.heed_withScreen w w _ d⟩
  · refine ⟨Debugger.echo d.radius dp tape command?, s.heed (Debugger.reply command?, d),
      s.withOperator d, fun k => ?_, fun hne => ?_⟩
    · refine (Debugger.shows_react k d dp tape command?).of_eq (fun w w₁ h => ?_)
        fun w w₁ h => ?_
      · simp only [h, heed_withScreen]
      · simp only [h, heed_withScreen]
        rfl
    · obtain ⟨s', hs', hmachine⟩ := s.exists_heed_of_echo d dp tape hne
      exact ⟨s', hs', hmachine.symm⟩

/-- **A step shows a text**, as far as the screen has room for it, and leads to the same on every
screen that has. -/
theorem exists_step_shows (s : Session) :
    ∃ text r cut, ShowsOn (fun w => (s.withScreen w).step) text r cut := by
  cases hf : s.machine.finished with
  | true =>
    refine ⟨"", .ended (.error .alreadyFinished) s, s, showsOn_empty fun w => ?_⟩
    have hf' : (s.withScreen w).machine.finished = true := hf
    simp only [step, hf', if_true]
    rfl
  | false =>
    cases hp : s.phase with
    | executing suspending =>
      have hstep : ∀ w, (s.withScreen w).step = (s.withScreen w).advance suspending := fun w =>
        step_of_executing (s := s.withScreen w) hf hp
      simp only [hstep]
      exact s.exists_advance_shows suspending
    | asking report =>
      have hstep : ∀ w, (s.withScreen w).step = (s.withScreen w).heed
          ((s.operator.withScreen w).answer report.dp s.machine.tape) := fun w => by
        rw [step_eq_heed (s := s.withScreen w) hf hp, operator_withScreen]
        rfl
      simp only [hstep]
      exact s.exists_heed_shows report.dp s.machine.tape

/-- A session has got somewhere by showing a text, the same on every screen that never fails. -/
def ShowsText (on : Writer → Result) (text : String) (r : Result) : Prop :=
  ∀ w : Writer, w.Reliable → ∃ w', w'.Reliable ∧
    w'.accepted.toList = w.accepted.toList ++ Text.encode text ∧ on w = r.map (·.withScreen w')

/-- **A step shows the same text on every screen** that never fails, and leads to the same. -/
theorem exists_step_screen (s : Session) :
    ∃ r text, ShowsText (fun w => (s.withScreen w).step) text r := by
  obtain ⟨text, r, cut, hshows⟩ := s.exists_step_shows
  refine ⟨r, text, fun w hw => ?_⟩
  obtain ⟨w', ⟨hw', haccepted⟩, hstep⟩ := hshows.shows .reliable _ w ⟨hw, rfl⟩ rfl
  exact ⟨w', hw', haccepted, hstep⟩

end Session

end TapeMachine

import TapeMachine.Proofs.Terminal.Lifetime

/-!
# How the command ends at a terminal

A signal that arrives ends the command, however many others arrive before it has: a handler makes
two calls and raises its signal again, and it can be interrupted only once, by the handler of the
other signal. A command that does not run a program that can read input leaves the terminal alone.

## Main definitions

* `TapeMachine.Process.stepsLeft` — for how many steps the running handlers can keep the process
  alive.
* `TapeMachine.Console.RunsReader` — whether a command is to run a program that can read input.
* `TapeMachine.Process.Aloof` — the command, and the terminal that it leaves alone.

## Main results

* `TapeMachine.Process.exists_run_eq_receive` — what the calls of a handler come to while nothing
  disturbs them.
* `TapeMachine.Process.Sound.stepsLeft_run` — handlers that run are done after so many steps.
* `TapeMachine.Process.Aloof.run` — a command that leaves the terminal alone does so under any
  schedule.
* `TapeMachine.Process.raw_mode_never_outlives_process` — the life of the command under any
  schedule.
-/

set_option autoImplicit false

namespace TapeMachine

namespace Process

variable {initial : TerminalSettings} {p : Process}

/-! ## The end of a process that a signal has reached -/

/-- Nothing happens to a process that has ended. -/
lemma perform_of_hasEnded (h : p.hasEnded = true) (event : Event) : p.perform event = p := by
  simp [perform, h]

/-- A process that has ended stays as it is. -/
lemma run_of_hasEnded (h : p.hasEnded = true) (schedule : List Event) : p.run schedule = p := by
  induction schedule with
  | nil => rfl
  | cons event schedule ih => rwa [run_cons, perform_of_hasEnded h]

lemma run_of_killed (h : p.killedBy? ≠ none) (schedule : List Event) : p.run schedule = p :=
  run_of_hasEnded (by simp [hasEnded, Option.isSome_iff_ne_none.mpr h]) schedule

lemma arrived_deliver (p : Process) (signal : Signal) : (p.deliver signal).arrived = p.arrived := by
  unfold deliver
  split <;> rfl

/-- A signal arrives where the event is that, and at no other. -/
lemma arrived_perform (h : p.hasEnded = false) (event : Event) :
    (p.perform event).arrived = event.signal?.toList ++ p.arrived := by
  simp only [perform, h, Bool.false_eq_true, if_false]
  cases event with
  | proceed =>
    show p.proceed.arrived = p.arrived
    unfold proceed
    split
    · rfl
    · rfl
    · exact arrived_deliver _ _
  | signal signal =>
    show (p.receive signal).arrived = signal :: p.arrived
    simp only [receive]
    split
    · rfl
    · exact arrived_deliver _ _
  | type events => rfl

/-- Until the process ends just the signals of the schedule arrive. -/
lemma arrived_run {schedule : List Event} (h : (p.run schedule).hasEnded = false) :
    (p.run schedule).arrived = (schedule.filterMap Event.signal?).reverse ++ p.arrived := by
  induction schedule generalizing p with
  | nil => rfl
  | cons event schedule ih =>
    have hended : p.hasEnded = false := by
      by_contra hended
      rw [run_of_hasEnded (Bool.eq_true_of_not_eq_false hended)] at h
      exact hended h
    rw [run_cons] at h ⊢
    rw [ih h, arrived_perform hended]
    cases hsignal : event.signal? <;> simp [hsignal]

/-- A signal that is not held back is handled, where it does not end the process. -/
lemma perform_signal_of_restoring {signal : Signal} (hended : p.hasEnded = false)
    (hnil : p.handlers = []) (hget : p.mode.signals.get signal = .restoring) :
    p.perform (.signal signal) =
      { p with
        handlers := [⟨signal, p.mode.restoring signal⟩]
        arrived := signal :: p.arrived } := by
  simp [perform, hended, receive, hnil, deliver, hget]

/-- A handler that nothing disturbs makes its calls one after another, and its signal kills the
process. -/
lemma run_handler {signal : Signal} {calls : List Adjustment} {rest : List Handler}
    (hended : p.hasEnded = false) (hh : p.handlers = ⟨signal, calls⟩ :: rest)
    (hdefault : (RawMode.applyAll calls p.mode).signals.get signal = .default) :
    p.run (.replicate (calls.length + 1) .proceed) =
      { p with
        handlers := rest
        mode := .applyAll calls p.mode
        killedBy? := some signal } := by
  induction calls generalizing p with
  | nil =>
    have hget : p.mode.signals.get signal = .default := hdefault
    simp [run, perform, hended, proceed, hh, deliver, hget, RawMode.applyAll]
  | cons call calls ih =>
    have hstep : p.perform .proceed =
        { p with handlers := ⟨signal, calls⟩ :: rest, mode := call.apply p.mode } := by
      simp [perform, hended, proceed, hh]
    rw [List.length_cons, List.replicate_succ, run_cons, hstep]
    exact ih hended rfl hdefault

/-- **A single signal ends the process** as it ends a dialogue, and leaves the same settings. -/
theorem exists_run_eq_receive (hended : p.hasEnded = false) (hnil : p.handlers = [])
    (signal : Signal) :
    ∃ n, (p.run (.signal signal :: .replicate n .proceed)).killedBy? = some signal ∧
      (p.run (.signal signal :: .replicate n .proceed)).mode.settings =
        (p.mode.receive signal).settings := by
  cases hget : p.mode.signals.get signal with
  | default =>
    refine ⟨0, ?_, ?_⟩ <;>
      simp [run, perform, hended, receive, hnil, deliver, hget, RawMode.receive]
  | restoring =>
    have hdefault :
        (RawMode.applyAll (p.mode.restoring signal) p.mode).signals.get signal = .default := by
      rw [RawMode.restoring, RawMode.applyAll_concat]
      cases signal <;> rfl
    have harrival := perform_signal_of_restoring hended hnil hget
    have hrun := run_handler (p := p.perform (.signal signal)) (by rw [harrival]; exact hended)
      (by rw [harrival]) (by rw [harrival]; exact hdefault)
    refine ⟨(p.mode.restoring signal).length + 1, ?_⟩
    rw [run_cons, hrun, harrival]
    exact ⟨rfl, RawMode.settings_applyAll_restoring p.mode hget⟩

/-- For how many steps the running handlers can keep the process alive. A handler that runs alone
can still be interrupted by that of the other signal, which dies three steps later. -/
def stepsLeft (p : Process) : Nat :=
  match p.handlers with
  | [] => 0
  | [handler] => handler.calls.length + 3
  | handler :: _ :: _ => handler.calls.length + 1

/-- A command that has exited undisturbed leaves the settings and the handling of signals as it
found them. -/
lemma Undisturbed.exited {stage : Stage} {mode : RawMode} (h : Undisturbed initial stage mode)
    (hexited : stage.hasExited = true) : mode.settings = initial ∧ mode.signals = {} := by
  cases h with
  | restored | untouched => exact ⟨rfl, rfl⟩
  | _ => cases hexited

namespace Sound

/-- A handler makes at most two calls. -/
lemma length_calls_le (h : Sound initial p) {handler : Handler} (hmem : handler ∈ p.handlers) :
    handler.calls.length ≤ 2 := by
  rcases (h.handlers handler hmem).2.calls with hcalls | ⟨-, hcalls | ⟨hcalls, -⟩⟩ <;> simp [hcalls]

/-- The handlers are done after five steps. -/
lemma stepsLeft_le (h : Sound initial p) : p.stepsLeft ≤ 5 := by
  unfold stepsLeft
  split
  · exact Nat.zero_le _
  · rename_i handler hh
    have := h.length_calls_le (by simp [hh] : handler ∈ p.handlers)
    omega
  · rename_i handler other rest hh
    have := h.length_calls_le (by simp [hh] : handler ∈ p.handlers)
    omega

/-- Two handlers hold both signals back. -/
lemma exists_handler (h : Sound initial p) {first second : Handler} {rest : List Handler}
    (hh : p.handlers = first :: second :: rest) (signal : Signal) :
    p.handlers.any (·.signal == signal) = true := by
  have hdistinct := h.distinct
  simp only [hh, List.map_cons, List.nodup_cons, List.mem_cons, not_or] at hdistinct
  obtain ⟨⟨hne, -⟩, -⟩ := hdistinct
  revert hne
  simp only [hh, List.any_cons, Bool.or_eq_true, beq_iff_eq]
  cases first.signal <;> cases second.signal <;> cases signal <;> simp

/-- A step of the last handler kills the process or brings it closer to its end. -/
lemma stepsLeft_proceed (h : Sound initial p) (hne : p.handlers ≠ []) :
    p.proceed.killedBy? ≠ none ∨
      p.proceed.handlers ≠ [] ∧ p.proceed.stepsLeft + 1 ≤ p.stepsLeft := by
  unfold Process.proceed
  split
  · rename_i hnil
    exact absurd hnil hne
  · rename_i signal call calls rest hh
    refine Or.inr ⟨List.cons_ne_nil _ _, ?_⟩
    cases rest <;> simp [stepsLeft, hh]
  · rename_i signal rest hh
    have hmidway := (h.handlers _ (by rw [hh]; exact List.mem_cons_self)).2
    rcases hmidway.calls with hcalls | ⟨-, hcalls | ⟨-, hdefault⟩⟩
    · cases hcalls
    · cases hcalls
    · have hget : p.mode.signals.get signal = .default := hdefault
      exact Or.inl (by simp [deliver, hget])

/-- The arrival of a signal kills the process, or it brings it no further from its end. -/
lemma stepsLeft_receive (h : Sound initial p) (hne : p.handlers ≠ []) (signal : Signal) :
    (p.receive signal).killedBy? ≠ none ∨
      (p.receive signal).handlers ≠ [] ∧ (p.receive signal).stepsLeft ≤ p.stepsLeft := by
  simp only [Process.receive]
  split
  · exact Or.inr ⟨hne, le_rfl⟩
  · rename_i hheld
    cases hget : p.mode.signals.get signal with
    | default => exact Or.inl (by simp [deliver, hget])
    | restoring =>
      refine Or.inr ⟨by simp [deliver, hget], ?_⟩
      have hsaved := h.guarded.saved signal hget
      rcases hh : p.handlers with _ | ⟨handler, _ | ⟨other, rest⟩⟩
      · exact absurd hh hne
      · simp [deliver, hget, stepsLeft, hh, RawMode.restoring, hsaved]
      · exact absurd (h.exists_handler hh signal) hheld

/-- While handlers run, an event kills the process, or it uses up a step if it is one. -/
theorem stepsLeft_perform (h : Sound initial p) (hne : p.handlers ≠ []) (hnone : p.killedBy? = none)
    (event : Event) :
    (p.perform event).killedBy? ≠ none ∨
      (p.perform event).handlers ≠ [] ∧
        (p.perform event).stepsLeft + [event].count .proceed ≤ p.stepsLeft := by
  have hended : p.hasEnded = false := hasEnded_eq_false_iff.mpr ⟨hnone, h.alive hne⟩
  simp only [Process.perform, hended, Bool.false_eq_true, if_false]
  cases event with
  | proceed => exact h.stepsLeft_proceed hne
  | signal signal => exact h.stepsLeft_receive hne signal
  | type events => exact Or.inr ⟨hne, le_rfl⟩

/-- **Handlers that run kill the process in time**: under any schedule it dies, or uses up a step
for each step of the schedule.

**Proof sketch.** Induction on the schedule, with one event by `stepsLeft_perform`. -/
theorem stepsLeft_run (h : Sound initial p) (hne : p.handlers ≠ []) (hnone : p.killedBy? = none)
    (schedule : List Event) :
    (p.run schedule).killedBy? ≠ none ∨
      (p.run schedule).handlers ≠ [] ∧
        (p.run schedule).stepsLeft + schedule.count .proceed ≤ p.stepsLeft := by
  induction schedule generalizing p with
  | nil => exact Or.inr ⟨hne, le_rfl⟩
  | cons event schedule ih =>
    rw [run_cons]
    by_cases hkilled : (p.perform event).killedBy? = none
    · obtain ⟨hne', hstep⟩ := (h.stepsLeft_perform hne hnone event).resolve_left (absurd hkilled)
      refine (ih (h.perform event) hne' hkilled).imp_right fun ⟨hne'', hrest⟩ => ⟨hne'', ?_⟩
      have hcount : (event :: schedule).count .proceed =
          [event].count .proceed + schedule.count .proceed := by
        rw [← List.count_append, List.singleton_append]
      omega
    · rw [run_of_killed hkilled]
      exact Or.inl hkilled

/-- A signal that has arrived ends the process within five steps. -/
theorem killed_of_arrived (h : Sound initial p) (harrived : p.arrived ≠ []) {schedule : List Event}
    (hcount : 5 ≤ schedule.count .proceed) : (p.run schedule).killedBy? ≠ none := by
  by_cases hnone : p.killedBy? = none
  · have hne : p.handlers ≠ [] := fun hnil => harrived (h.undisturbed hnil hnone).1
    rcases h.stepsLeft_run hne hnone schedule with hkilled | ⟨hne', hsteps⟩
    · exact hkilled
    · have hle := h.stepsLeft_le
      have hpos : 0 < (p.run schedule).stepsLeft := by
        unfold stepsLeft
        split <;> first | omega | contradiction
      omega
  · rwa [run_of_killed hnone]

/-- Once the process has ended the settings are those that were found, and unless a signal has ended
it so is the handling of signals. -/
theorem ended (h : Sound initial p) (hended : p.hasEnded = true) :
    p.mode.settings = initial ∧
      (p.killedBy? = none → p.arrived = [] ∧ p.mode.signals = {}) := by
  cases hkilled : p.killedBy? with
  | some signal => exact ⟨(h.killed signal hkilled).2, fun hnone => by cases hnone⟩
  | none =>
    have hexited : p.stage.hasExited = true := by simpa [hasEnded, hkilled] using hended
    have hnil : p.handlers = [] := by
      by_contra hne
      simp [h.alive hne] at hexited
    obtain ⟨harrived, hundisturbed⟩ := h.undisturbed hnil hkilled
    obtain ⟨hsettings, hsignals⟩ := hundisturbed.exited hexited
    exact ⟨hsettings, fun _ => ⟨harrived, hsignals⟩⟩

end Sound

end Process

/-! ## Commands that leave the terminal alone -/

/-- Whether a command is to run a program that can read input: it is a run, measured or not, and the
program can be loaded and holds the symbol for input. -/
def Console.RunsReader (console : Console) (task : FileTask) (path : String) (options : Options) :
    Prop :=
  (task = .run ∨ task = .benchmark) ∧
    ∃ source program, console.surroundings.read path = .ok source ∧
      Program.load source options.fold = .ok program ∧ Symbol.input.byte ∈ source

/-- A job that writes to standard output and ends does not run a program. -/
lemma Console.runsReader_printAndExit (console : Console) (stdin : Reader) (stdout : Writer)
    (text : List UInt8) : (console.printAndExit stdin stdout text).runsReader = false := by
  unfold printAndExit
  split <;> rfl

/-- Whether the command switches the terminal to raw mode is decided by the program text. -/
theorem Console.runsReader_openFile (console : Console) (task : FileTask) (path : String)
    (options : Options) (stdin : Reader) (stdout : Writer) :
    (console.openFile task path options stdin stdout).runsReader = true ↔
      console.RunsReader task path options := by
  cases hread : console.surroundings.read path with
  | error cause => simp [openFile, RunsReader, hread, fail, exit, Job.runsReader]
  | ok source =>
    cases hload : Program.load source options.fold with
    | error e => simp [openFile, RunsReader, hread, hload, fail, exit, Job.runsReader]
    | ok program =>
      have hreads := Program.readsInput_eq_true_iff hload
      cases task with
      | run | benchmark =>
        simpa [openFile, RunsReader, hread, hload, begin, Job.runsReader, Machine.start]
          using hreads
      | debug => simp [openFile, RunsReader, hread, hload, begin, Job.runsReader]
      | format => simp [openFile, RunsReader, hread, hload, begin, runsReader_printAndExit]

/-- Where a command can be in its life that leaves the terminal alone. -/
inductive Stage.Aloof : Stage → Prop
  | starting {console : Console} {task : FileTask} {path : String} {options : Options}
    (h : ¬console.RunsReader task path options) (stdin : Reader) (stdout : Writer) :
    Aloof (.starting console task path options stdin stdout)
  | working (job : Job) : Aloof (.working job none)
  | exited (code : Nat) : Aloof (.exited code)

namespace Stage.Aloof

variable {stage : Stage}

/-- A step of such a command does not touch the terminal. -/
lemma advance (h : stage.Aloof) (mode : RawMode) :
    (stage.advance mode).1.Aloof ∧ (stage.advance mode).2 = mode := by
  cases h with
  | starting h stdin stdout =>
    rw [← Console.runsReader_openFile _ _ _ _ stdin stdout] at h
    simp only [Stage.advance, h]
    exact ⟨.working _, rfl⟩
  | working job =>
    simp only [Stage.advance]
    split
    · exact ⟨.working _, rfl⟩
    · cases job.step with
      | running job => exact ⟨.working _, rfl⟩
      | ended code job => exact ⟨.exited _, rfl⟩
  | exited code => exact ⟨.exited _, rfl⟩

/-- It can be typed to as well. -/
lemma feed (h : stage.Aloof) (events : List ReadEvent) : (stage.feed events).Aloof := by
  cases h with
  | starting h => exact .starting h _ _
  | _ => constructor

end Stage.Aloof

namespace Process

variable {initial : TerminalSettings} {p : Process}

/-- The command, and the terminal that it leaves alone: nothing has changed since the start, and no
handler runs. -/
structure Aloof (initial : TerminalSettings) (p : Process) : Prop where
  stage : p.stage.Aloof
  mode : p.mode = { settings := initial }
  handlers : p.handlers = []

/-- An event does not have such a command touch the terminal. -/
lemma Aloof.perform (h : Aloof initial p) (event : Event) : Aloof initial (p.perform event) := by
  unfold Process.perform
  split
  · exact h
  · match event with
    | .proceed =>
      obtain ⟨hstage, hmode⟩ := h.stage.advance p.mode
      simp only [proceed, h.handlers]
      exact ⟨hstage, hmode.trans h.mode, rfl⟩
    | .signal signal =>
      have hget : p.mode.signals.get signal = .default := by
        rw [h.mode]
        cases signal <;> rfl
      simp only [receive, h.handlers, List.any_nil, Bool.false_eq_true, if_false, deliver, hget]
      exact ⟨h.stage, h.mode, rfl⟩
    | .type events => exact ⟨h.stage.feed events, h.mode, h.handlers⟩

/-- A whole schedule does not either. -/
theorem Aloof.run (h : Aloof initial p) (schedule : List Event) :
    Aloof initial (p.run schedule) := by
  induction schedule generalizing p with
  | nil => exact h
  | cons event schedule ih => exact ih (h.perform event)

/-! ## The life of the command -/

/-- **Raw mode never outlives the process.** Whatever the command is to do, and whatever signals
arrive when:

* at every moment the settings are those that were found, or the same in raw mode;
* while they are not those that were found, both signals have them put back, and they are saved;
* once the process has ended they are in force again;
* until the process ends just the signals of the schedule arrive, and a process that dies of a
  signal dies of one that has arrived;
* a process that ends without one leaves the handling of signals as it was found as well;
* a signal that has arrived ends the process within five steps;
* a command that does not run a program that can read input leaves the terminal alone. -/
theorem raw_mode_never_outlives_process (console : Console) (task : FileTask) (path : String)
    (options : Options) (stdin : Reader) (stdout : Writer) (initial : TerminalSettings)
    (schedule : List Event) :
    let p := (launch console task path options stdin stdout initial).run schedule
    (p.mode.settings = initial ∨ p.mode.settings = initial.raw) ∧
      (p.mode.settings ≠ initial →
        (∀ signal, p.mode.signals.get signal = .restoring) ∧ p.mode.saved? = some initial) ∧
      (p.hasEnded = true → p.mode.settings = initial) ∧
      (p.hasEnded = false → p.arrived = (schedule.filterMap Event.signal?).reverse) ∧
      (∀ signal, p.killedBy? = some signal → signal ∈ p.arrived) ∧
      (p.hasEnded = true → p.killedBy? = none → p.arrived = [] ∧ p.mode.signals = {}) ∧
      (p.arrived ≠ [] → ∀ more : List Event, 5 ≤ more.count .proceed →
        ∃ signal ∈ (p.run more).arrived, (p.run more).killedBy? = some signal) ∧
      (¬console.RunsReader task path options → p.mode = { settings := initial }) := by
  intro p
  have hsound : Sound initial p :=
    (Sound.launch console task path options stdin stdout initial).run schedule
  refine ⟨hsound.guarded.settings, fun hne => ?_, fun hended => (hsound.ended hended).1,
    fun hended => (arrived_run hended).trans (List.append_nil _),
    fun signal h => (hsound.killed signal h).1, fun hended => (hsound.ended hended).2,
    fun harrived more hcount => ?_, fun hreads => ?_⟩
  · have hhandled := hsound.guarded.handled hne
    exact ⟨hhandled, hsound.guarded.saved .interrupt (hhandled .interrupt)⟩
  · obtain ⟨signal, hkilled⟩ :=
      Option.ne_none_iff_exists'.mp (hsound.killed_of_arrived harrived hcount)
    exact ⟨signal, ((hsound.run more).killed signal hkilled).1, hkilled⟩
  · have hstart : Aloof initial (launch console task path options stdin stdout initial) :=
      ⟨.starting hreads stdin stdout, rfl, rfl⟩
    exact (hstart.run schedule).mode

end Process

end TapeMachine

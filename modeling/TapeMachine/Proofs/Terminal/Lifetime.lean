import Mathlib.Tactic
import TapeMachine.Proofs.Program.Expansion
import TapeMachine.Terminal.Dialogue

/-!
# Raw mode and the life of the command

A run of a program that reads input switches the terminal to raw mode in several system calls, and
switches it back in several more. Signals can arrive between any two of them, and even while an
earlier one is handled. Whatever arrives when, the terminal is left as it was found.

The command is followed here from system call to system call. It is disturbed by events: it goes on
by one step, a signal arrives, or something is typed.

## Main definitions

* `TapeMachine.Adjustment` — a system call that concerns the terminal or the handling of a signal.
* `TapeMachine.RawMode.enabling`, `TapeMachine.RawMode.disabling`, `TapeMachine.RawMode.restoring` —
  the calls of the switch to raw mode, of the switch back, and of the handler of a signal.
* `TapeMachine.Stage`, `TapeMachine.Process` — where the command is in its life, and the command
  with the terminal and the handlers that are running.
* `TapeMachine.Process.perform`, `TapeMachine.Process.run` — the effect of an event, and of a whole
  schedule of them.
* `TapeMachine.Process.Sound` — what holds at every moment.

## Main results

* `TapeMachine.RawMode.applyAll_enabling`, `TapeMachine.RawMode.applyAll_disabling`,
  `TapeMachine.RawMode.settings_applyAll_restoring` — the calls make up the switches and the
  handler.
* `TapeMachine.Process.Undisturbed.advance`, `TapeMachine.Process.Sound.perform` — what one step of
  the command, and one event, preserve.
* `TapeMachine.Process.exists_run_eq_launch` — what the calls come to while nothing disturbs them.
-/

set_option autoImplicit false

namespace TapeMachine

/-! ## System calls -/

/-- A system call that concerns the terminal or the handling of a signal. -/
inductive Adjustment
  /-- The settings in force are saved, unless some have been saved before. -/
  | save
  /-- It is laid down what is done about a signal. -/
  | handle (signal : Signal) (disposition : Disposition)
  /-- The settings in force are changed. -/
  | put (settings : TerminalSettings)
deriving DecidableEq, Repr

/-- The effect of a system call. -/
def Adjustment.apply : Adjustment → RawMode → RawMode
  | save, mode => mode.save
  | handle signal disposition, mode => mode.handle signal disposition
  | put settings, mode => mode.put settings

namespace RawMode

/-- The effect of several system calls, one after another. -/
def applyAll (calls : List Adjustment) (mode : RawMode) : RawMode :=
  calls.foldl (fun mode call => call.apply mode) mode

/-- The calls of the switch to raw mode. -/
def enabling (found : RawMode) : List Adjustment :=
  [.save, .handle .interrupt .restoring, .handle .terminate .restoring, .put found.settings.raw]

/-- The calls of the switch back. -/
def disabling (found : RawMode) : List Adjustment :=
  [.put found.settings, .handle .interrupt (found.signals.get .interrupt),
    .handle .terminate (found.signals.get .terminate)]

/-- The calls of the handler of a signal, before it raises the signal again. -/
def restoring (mode : RawMode) (signal : Signal) : List Adjustment :=
  (mode.saved?.map .put).toList ++ [.handle signal .default]

/-- The calls make up the switch to raw mode. -/
lemma applyAll_enabling (found : RawMode) : applyAll found.enabling found = found.enable := rfl

/-- The calls make up the switch back. -/
lemma applyAll_disabling (mode found : RawMode) :
    applyAll found.disabling mode = mode.disable found := rfl

/-- The calls of a handler leave the terminal as the arrival of the signal does. -/
lemma settings_applyAll_restoring (mode : RawMode) {signal : Signal}
    (h : mode.signals.get signal = .restoring) :
    (applyAll (mode.restoring signal) mode).settings = (mode.receive signal).settings := by
  simp only [restoring, receive, h]
  cases mode.saved? <;> rfl

/-- A call behind several others. -/
lemma applyAll_concat (calls : List Adjustment) (call : Adjustment) (mode : RawMode) :
    applyAll (calls ++ [call]) mode = call.apply (applyAll calls mode) := by
  simp [applyAll]

end RawMode

/-! ## The command as a process -/

/-- Where the command is in its life. -/
inductive Stage
  /-- It is about to read the program file. -/
  | starting (console : Console) (task : FileTask) (path : String) (options : Options)
    (stdin : Reader) (stdout : Writer)
  /-- It switches the terminal to raw mode, and has some calls left to make. -/
  | enabling (job : Job) (found : RawMode) (calls : List Adjustment)
  /-- It does its work, after a switch to raw mode or without. -/
  | working (job : Job) (found? : Option RawMode)
  /-- It switches the terminal back, and has some calls left to make. -/
  | disabling (code : Nat) (calls : List Adjustment)
  /-- It has exited. -/
  | exited (code : Nat)

namespace Stage

/-- One step of the command. It waits where its job needs input that is not at hand. -/
def advance : Stage → RawMode → Stage × RawMode
  | starting console task path options stdin stdout, mode =>
    let job := console.openFile task path options stdin stdout
    if job.runsReader then (enabling job mode mode.enabling, mode) else (working job none, mode)
  | enabling job found (call :: calls), mode => (enabling job found calls, call.apply mode)
  | enabling job found [], mode =>
    (working { job with console := job.console.log .rawMode } (some found), mode)
  | working job found?, mode =>
    if job.waiting then (working job found?, mode)
    else
      match job.step with
      | .running job => (working job found?, mode)
      | .ended code _ =>
        match found? with
        | some found => (disabling code found.disabling, mode)
        | none => (exited code, mode)
  | disabling code (call :: calls), mode => (disabling code calls, call.apply mode)
  | disabling code [], mode => (exited code, mode)
  | exited code, mode => (exited code, mode)

/-- What has been typed becomes input of the command. -/
def feed (stage : Stage) (events : List ReadEvent) : Stage :=
  match stage with
  | starting console task path options stdin stdout =>
    starting console task path options (stdin.feed events) stdout
  | enabling job found calls => enabling (job.feed events) found calls
  | working job found? => working (job.feed events) found?
  | disabling code calls => disabling code calls
  | exited code => exited code

/-- Whether the command has exited. -/
def hasExited : Stage → Bool
  | exited _ => true
  | _ => false

end Stage

/-- What can happen to the command between two moments. -/
inductive Event
  /-- It makes a step, or a handler does that is running. -/
  | proceed
  /-- A signal arrives. -/
  | signal (signal : Signal)
  /-- Something is typed. -/
  | type (events : List ReadEvent)
deriving DecidableEq, Repr

/-- The signal that arrives, if the event is that. -/
def Event.signal? : Event → Option Signal
  | signal s => some s
  | _ => none

/-- A handler that is running. -/
structure Handler where
  /-- The signal that it handles. While it runs this signal is held back. -/
  signal : Signal
  /-- The calls that it has left to make, before it raises the signal again. -/
  calls : List Adjustment

/-- The command with the terminal. -/
structure Process where
  /-- Where the command is in its life. -/
  stage : Stage
  /-- The settings in force, those saved, and what is done about signals. -/
  mode : RawMode
  /-- The handlers that are running, the last one first: it has interrupted the others, and they
  have interrupted the command. -/
  handlers : List Handler := []
  /-- The signals that have arrived during the life of the command, the last one first. -/
  arrived : List Signal := []
  /-- The signal that the command has died of. -/
  killedBy? : Option Signal := none

namespace Process

/-- The command at its start, at a terminal with some settings. Nothing is saved yet, and both
signals would end the process. -/
def launch (console : Console) (task : FileTask) (path : String) (options : Options)
    (stdin : Reader) (stdout : Writer) (settings : TerminalSettings) : Process where
  stage := .starting console task path options stdin stdout
  mode := { settings }

/-- Whether the process has ended. -/
def hasEnded (p : Process) : Bool := p.killedBy?.isSome || p.stage.hasExited

/-- A signal takes effect: the process dies of it, or a handler begins to run. -/
def deliver (p : Process) (signal : Signal) : Process :=
  match p.mode.signals.get signal with
  | .default => { p with killedBy? := some signal }
  | .restoring => { p with handlers := ⟨signal, p.mode.restoring signal⟩ :: p.handlers }

/-- A step of the command, or of the last handler if one is running. A handler that has made its
calls has raised its signal again, which takes effect once the handler returns. -/
def proceed (p : Process) : Process :=
  match p.handlers with
  | [] =>
    let (stage, mode) := p.stage.advance p.mode
    { p with stage, mode }
  | ⟨signal, call :: calls⟩ :: handlers =>
    { p with handlers := ⟨signal, calls⟩ :: handlers, mode := call.apply p.mode }
  | ⟨signal, []⟩ :: handlers => { p with handlers }.deliver signal

/-- A signal arrives. One that is held back waits for the end of its handler, where it is raised
anyway. -/
def receive (p : Process) (signal : Signal) : Process :=
  let p := { p with arrived := signal :: p.arrived }
  if p.handlers.any (·.signal == signal) then p else p.deliver signal

/-- The effect of an event. Nothing happens to a process that has ended. -/
def perform (p : Process) (event : Event) : Process :=
  if p.hasEnded then p
  else
    match event with
    | .proceed => p.proceed
    | .signal signal => p.receive signal
    | .type events => { p with stage := p.stage.feed events }

/-- The effect of a whole schedule of events. -/
def run (p : Process) (schedule : List Event) : Process := schedule.foldl perform p

lemma run_cons (p : Process) (event : Event) (schedule : List Event) :
    p.run (event :: schedule) = (p.perform event).run schedule := rfl

end Process

/-! ## The command that nothing disturbs -/

/-- A dialogue about a program that can read input begins in raw mode. -/
lemma Dialogue.launch_of_runsReader {job : Job} (h : job.runsReader = true)
    (settings : TerminalSettings) :
    launch job settings =
      { job := { job with console := job.console.log .rawMode }
        mode := RawMode.enable { settings }
        found := { settings } } := by
  obtain ⟨console, activity⟩ := job
  cases activity with
  | running machine measured => simp [launch, h, settle, Job.ended]
  | _ => cases h

/-- Any other dialogue begins with the settings that are found. -/
lemma Dialogue.launch_of_not_runsReader {job : Job} (h : job.runsReader = false)
    (settings : TerminalSettings) :
    launch job settings = { job, mode := { settings }, found := { settings } } := by
  have hdisable : RawMode.disable { settings } { settings } = { settings } := rfl
  simp [launch, h, settle, hdisable]

namespace Process

/-- **What nothing disturbs gets to work**, with the terminal as a dialogue has it at its start. -/
theorem exists_run_eq_launch (console : Console) (task : FileTask) (path : String)
    (options : Options) (stdin : Reader) (stdout : Writer) (settings : TerminalSettings) :
    let d := Dialogue.launch (console.openFile task path options stdin stdout) settings
    ∃ n found?,
      (launch console task path options stdin stdout settings).run (.replicate n .proceed) =
        { stage := .working d.job found?, mode := d.mode } := by
  intro d
  cases hreads : (console.openFile task path options stdin stdout).runsReader with
  | true =>
    -- reading the file, the four calls, and going to work
    refine ⟨6, some { settings }, ?_⟩
    simp [d, Dialogue.launch_of_runsReader hreads, run, List.replicate, perform, hasEnded, proceed,
      launch, Stage.advance, Stage.hasExited, hreads, RawMode.enabling]
    rfl
  | false =>
    refine ⟨1, none, ?_⟩
    simp [d, Dialogue.launch_of_not_runsReader hreads, run, List.replicate, perform, hasEnded,
      proceed, launch, Stage.advance, Stage.hasExited, hreads]

/-! ## What a terminal is like at every moment -/

variable {initial : TerminalSettings} {mode : RawMode} {stage : Stage} {p : Process}

/-- The terminal is as it was found or in raw mode, and every signal that would end the process in
raw mode is handled by putting the settings back that were found. -/
structure Guarded (initial : TerminalSettings) (mode : RawMode) : Prop where
  settings : mode.settings = initial ∨ mode.settings = initial.raw
  handled : mode.settings ≠ initial → ∀ signal, mode.signals.get signal = .restoring
  saved : ∀ signal, mode.signals.get signal = .restoring → mode.saved? = some initial

namespace Guarded

/-- A terminal is guarded at the start. -/
lemma start (initial : TerminalSettings) : Guarded initial { settings := initial } where
  settings := Or.inl rfl
  handled h := absurd rfl h
  saved signal h := by cases signal <;> cases h

/-- The settings that were found can be saved. -/
lemma save (h : Guarded initial mode) : Guarded initial mode.save where
  settings := h.settings
  handled := h.handled
  saved signal hr := by
    simp only [RawMode.save, h.saved signal hr]
    rfl

/-- Once they are saved a signal can be handled. -/
lemma handle_restoring (h : Guarded initial mode) (hs : mode.saved? = some initial)
    (signal : Signal) : Guarded initial (mode.handle signal .restoring) where
  settings := h.settings
  handled hne other := by
    match signal, other with
    | .interrupt, .interrupt | .terminate, .terminate => rfl
    | .interrupt, .terminate => exact h.handled hne .terminate
    | .terminate, .interrupt => exact h.handled hne .interrupt
  saved _ _ := hs

/-- Once both signals are handled the terminal can be switched to raw mode. -/
lemma put_raw (hs : mode.saved? = some initial)
    (hhandled : ∀ signal, mode.signals.get signal = .restoring) :
    Guarded initial (mode.put initial.raw) where
  settings := Or.inr rfl
  handled _ := hhandled
  saved _ _ := hs

/-- The settings that were found can be put back. -/
lemma put_initial (h : Guarded initial mode) : Guarded initial (mode.put initial) where
  settings := Or.inl rfl
  handled hne := absurd rfl hne
  saved := h.saved

/-- Where they are in force a signal need not be handled. -/
lemma handle_default (h : Guarded initial mode) (hs : mode.settings = initial) (signal : Signal) :
    Guarded initial (mode.handle signal .default) where
  settings := h.settings
  handled hne := absurd hs hne
  saved other hr := by
    refine h.saved other ?_
    cases signal <;> cases other <;> first | exact hr | cases hr

end Guarded

/-- How the terminal stands to the command while no signal has arrived: the calls that it has not
left to make have been made. -/
inductive Undisturbed (initial : TerminalSettings) : Stage → RawMode → Prop
  | starting (console : Console) (task : FileTask) (path : String) (options : Options)
    (stdin : Reader) (stdout : Writer) :
    Undisturbed initial (.starting console task path options stdin stdout) { settings := initial }
  | enabling (job : Job) (made : List Adjustment) {calls : List Adjustment}
    (h : made ++ calls = RawMode.enabling { settings := initial }) :
    Undisturbed initial (.enabling job { settings := initial } calls)
      (.applyAll made { settings := initial })
  | raw (job : Job) :
    Undisturbed initial (.working job (some { settings := initial }))
      (RawMode.enable { settings := initial })
  | plain (job : Job) : Undisturbed initial (.working job none) { settings := initial }
  | disabling (code : Nat) (made : List Adjustment) {calls : List Adjustment}
    (h : made ++ calls = RawMode.disabling { settings := initial }) :
    Undisturbed initial (.disabling code calls)
      (.applyAll made (RawMode.enable { settings := initial }))
  | restored (code : Nat) :
    Undisturbed initial (.exited code)
      ((RawMode.enable { settings := initial }).disable { settings := initial })
  | untouched (code : Nat) : Undisturbed initial (.exited code) { settings := initial }

namespace Undisturbed

/-- A step of the command leaves the terminal in such a state. -/
theorem advance (h : Undisturbed initial stage mode) :
    Undisturbed initial (stage.advance mode).1 (stage.advance mode).2 := by
  cases h with
  | starting console task path options stdin stdout =>
    simp only [Stage.advance]
    split
    · exact .enabling _ [] rfl
    · exact .plain _
  | @enabling job made calls h =>
    cases calls with
    | nil =>
      rw [List.append_nil] at h
      subst h
      rw [Stage.advance, RawMode.applyAll_enabling]
      exact .raw _
    | cons call calls =>
      rw [Stage.advance, ← RawMode.applyAll_concat]
      exact .enabling job _ (by rw [List.append_assoc]; exact h)
  | raw job | plain job =>
    simp only [Stage.advance]
    split
    · constructor
    · cases job.step with
      | running job => constructor
      | ended code job =>
        first
        | exact .disabling code [] rfl
        | exact .untouched code
  | @disabling code made calls h =>
    cases calls with
    | nil =>
      rw [List.append_nil] at h
      subst h
      rw [Stage.advance, RawMode.applyAll_disabling]
      exact .restored code
    | cons call calls =>
      rw [Stage.advance, ← RawMode.applyAll_concat]
      exact .disabling code _ (by rw [List.append_assoc]; exact h)
  | restored code => exact .restored code
  | untouched code => exact .untouched code

/-- In such a state the terminal is guarded. -/
theorem guarded (h : Undisturbed initial stage mode) : Guarded initial mode := by
  have hraw : Guarded initial (RawMode.enable { settings := initial }) :=
    .put_raw rfl fun signal => by cases signal <;> rfl
  have hput := hraw.put_initial
  have hfirst := hput.handle_default rfl .interrupt
  have hsecond := hfirst.handle_default rfl .terminate
  cases h with
  | starting | plain | untouched => exact .start initial
  | raw => exact hraw
  | restored => exact hsecond
  | @enabling job made calls h =>
    have hsave := (Guarded.start initial).save
    have hfirst := hsave.handle_restoring rfl .interrupt
    have hsecond := hfirst.handle_restoring rfl .terminate
    have hmade := (List.mem_inits _ _).mpr ⟨calls, h⟩
    simp only [RawMode.enabling, List.inits, List.map_cons, List.map_nil, List.mem_cons,
      List.not_mem_nil, or_false] at hmade
    rcases hmade with rfl | rfl | rfl | rfl | rfl
    · exact .start initial
    · exact hsave
    · exact hfirst
    · exact hsecond
    · exact hraw
  | @disabling code made calls h =>
    have hmade := (List.mem_inits _ _).mpr ⟨calls, h⟩
    simp only [RawMode.disabling, List.inits, List.map_cons, List.map_nil, List.mem_cons,
      List.not_mem_nil, or_false] at hmade
    rcases hmade with rfl | rfl | rfl | rfl
    · exact hraw
    · exact hput
    · exact hfirst
    · exact hsecond

end Undisturbed

/-- What is typed does not concern the terminal settings. -/
lemma Undisturbed.feed (h : Undisturbed initial stage mode) (events : List ReadEvent) :
    Undisturbed initial (stage.feed events) mode := by
  cases h with
  | enabling job made h => exact .enabling _ made h
  | disabling code made h => exact .disabling code made h
  | _ => constructor

lemma hasExited_feed (stage : Stage) (events : List ReadEvent) :
    (stage.feed events).hasExited = stage.hasExited := by
  cases stage <;> rfl

/-- Where a handler is on its way: all of its calls are left to be made, or the settings have been
put back. Once it has made all of them the signal would end the process. -/
structure Midway (initial : TerminalSettings) (mode : RawMode) (handler : Handler) : Prop where
  saved : mode.saved? = some initial
  calls : handler.calls = [.put initial, .handle handler.signal .default] ∨
    mode.settings = initial ∧ (handler.calls = [.handle handler.signal .default] ∨
      handler.calls = [] ∧ mode.signals.get handler.signal = .default)

namespace Midway

variable {handler : Handler}

/-- A handler stays on its way when another one puts the settings back. -/
lemma put_initial (h : Midway initial mode handler) : Midway initial (mode.put initial) handler :=
  ⟨h.saved, h.calls.imp_right fun ⟨_, hcalls⟩ => ⟨rfl, hcalls⟩⟩

/-- A handler stays on its way when another one lays down that its own signal ends the process. -/
lemma handle_default (h : Midway initial mode handler) (signal : Signal) :
    Midway initial (mode.handle signal .default) handler := by
  refine ⟨h.saved, h.calls.imp_right fun ⟨hs, hcalls⟩ => ⟨hs, hcalls.imp_right ?_⟩⟩
  rintro ⟨hnil, hdefault⟩
  refine ⟨hnil, ?_⟩
  revert hdefault
  cases signal <;> cases handler.signal <;> intro hdefault <;> first | rfl | exact hdefault

end Midway

/-- A process has not ended while no signal has killed it and its command goes on. -/
lemma hasEnded_eq_false_iff :
    p.hasEnded = false ↔ p.killedBy? = none ∧ p.stage.hasExited = false := by
  simp [hasEnded]

/-- What holds at every moment in the life of the command. -/
structure Sound (initial : TerminalSettings) (p : Process) : Prop where
  guarded : Guarded initial p.mode
  undisturbed : p.handlers = [] → p.killedBy? = none →
    p.arrived = [] ∧ Undisturbed initial p.stage p.mode
  handlers : ∀ h ∈ p.handlers, h.signal ∈ p.arrived ∧ Midway initial p.mode h
  distinct : (p.handlers.map Handler.signal).Nodup
  alive : p.handlers ≠ [] → p.stage.hasExited = false
  killed : ∀ signal, p.killedBy? = some signal → signal ∈ p.arrived ∧ p.mode.settings = initial

/-- A signal that is not held back ends the process, with the terminal as it was found, or is
handled. -/
lemma sound_deliver {signal : Signal} (hguarded : Guarded initial p.mode)
    (hhandlers : ∀ h ∈ p.handlers, h.signal ∈ p.arrived ∧ Midway initial p.mode h)
    (hdistinct : (p.handlers.map Handler.signal).Nodup)
    (halive : p.stage.hasExited = false) (hkilled : p.killedBy? = none)
    (harrived : signal ∈ p.arrived) (hfree : signal ∉ p.handlers.map Handler.signal) :
    Sound initial (p.deliver signal) := by
  unfold deliver
  cases hget : p.mode.signals.get signal with
  | default =>
    have hsettings : p.mode.settings = initial := by
      by_contra hne
      rw [hguarded.handled hne] at hget
      cases hget
    refine ⟨hguarded, fun _ h => ?_, hhandlers, hdistinct, fun _ => halive, fun other h => ?_⟩
    · cases h
    · obtain rfl : signal = other := Option.some.inj h
      exact ⟨harrived, hsettings⟩
  | restoring =>
    have hsaved := hguarded.saved signal hget
    have hmidway : Midway initial p.mode ⟨signal, p.mode.restoring signal⟩ :=
      ⟨hsaved, Or.inl (by simp [RawMode.restoring, hsaved])⟩
    refine ⟨hguarded, fun h => ?_, fun h hmem => ?_, ?_, fun _ => halive, fun other h => ?_⟩
    · cases h
    · rcases List.mem_cons.mp hmem with rfl | hmem
      · exact ⟨harrived, hmidway⟩
      · exact hhandlers h hmem
    · exact List.nodup_cons.mpr ⟨hfree, hdistinct⟩
    · rw [hkilled] at h
      cases h

namespace Sound

/-- The command is sound at its start. -/
lemma launch (console : Console) (task : FileTask) (path : String) (options : Options)
    (stdin : Reader) (stdout : Writer) (initial : TerminalSettings) :
    Sound initial (launch console task path options stdin stdout initial) where
  guarded := .start initial
  undisturbed _ _ := ⟨rfl, .starting console task path options stdin stdout⟩
  handlers h hmem := by cases hmem
  distinct := List.nodup_nil
  alive h := absurd rfl h
  killed signal h := by cases h

/-- A call of the last handler keeps the process sound, if it leaves the terminal guarded and every
handler on its way. -/
lemma call {handler : Handler} {calls : List Adjustment} {rest : List Handler} {after : RawMode}
    (h : Sound initial p) (hh : p.handlers = handler :: rest) (hnone : p.killedBy? = none)
    (hguarded : Guarded initial after)
    (hlast : Midway initial after ⟨handler.signal, calls⟩)
    (hrest : ∀ other, Midway initial p.mode other → Midway initial after other) :
    Sound initial { p with handlers := ⟨handler.signal, calls⟩ :: rest, mode := after } where
  guarded := hguarded
  undisturbed hnil _ := by cases hnil
  handlers other hmem := by
    rcases List.mem_cons.mp hmem with rfl | hmem
    · exact ⟨(h.handlers handler (by simp [hh])).1, hlast⟩
    · exact (h.handlers other (by simp [hh, hmem])).imp_right (hrest other)
  distinct := by simpa [hh] using h.distinct
  alive _ := h.alive (by simp [hh])
  killed signal hkilled := by simp [hnone] at hkilled

/-- A step of the command or of a handler keeps the process sound. -/
theorem proceed (h : Sound initial p) (hended : p.hasEnded = false) : Sound initial p.proceed := by
  obtain ⟨hnone, halive⟩ := hasEnded_eq_false_iff.mp hended
  unfold Process.proceed
  split
  · rename_i hnil
    obtain ⟨harrived, hundisturbed⟩ := h.undisturbed hnil hnone
    exact
      { guarded := hundisturbed.advance.guarded
        undisturbed := fun _ _ => ⟨harrived, hundisturbed.advance⟩
        handlers := fun other hmem => by simp [hnil] at hmem
        distinct := h.distinct
        alive := fun hne => absurd hnil hne
        killed := fun signal hkilled => by simp [hnone] at hkilled }
  · rename_i signal call calls rest hh
    have hmidway := (h.handlers _ (by rw [hh]; exact List.mem_cons_self)).2
    rcases hmidway.calls with hfull | ⟨hsettings, hlast | ⟨hnil, -⟩⟩
    · obtain ⟨rfl, rfl⟩ : call = .put initial ∧ calls = [.handle signal .default] :=
        List.cons.inj hfull
      exact h.call hh hnone h.guarded.put_initial ⟨hmidway.saved, Or.inr ⟨rfl, Or.inl rfl⟩⟩
        fun _ hother => hother.put_initial
    · obtain ⟨rfl, rfl⟩ : call = .handle signal .default ∧ calls = [] := List.cons.inj hlast
      refine h.call hh hnone (h.guarded.handle_default hsettings signal)
        ⟨hmidway.saved, Or.inr ⟨hsettings, Or.inr ⟨rfl, ?_⟩⟩⟩
        fun _ hother => hother.handle_default signal
      cases signal <;> rfl
    · cases hnil
  · rename_i signal rest hh
    have hdistinct := h.distinct
    rw [hh] at hdistinct
    obtain ⟨hfree, hdistinct⟩ := List.nodup_cons.mp hdistinct
    exact sound_deliver h.guarded (fun other hmem => h.handlers other (by simp [hh, hmem]))
      hdistinct halive hnone (h.handlers _ (by rw [hh]; exact List.mem_cons_self)).1 hfree

/-- The arrival of a signal keeps the process sound. -/
theorem receive (h : Sound initial p) (hended : p.hasEnded = false) (signal : Signal) :
    Sound initial (p.receive signal) := by
  obtain ⟨hnone, halive⟩ := hasEnded_eq_false_iff.mp hended
  have hhandlers : ∀ h ∈ p.handlers, h.signal ∈ signal :: p.arrived ∧ Midway initial p.mode h :=
    fun other hmem => (h.handlers other hmem).imp_left (List.mem_cons_of_mem _)
  simp only [Process.receive]
  split
  · rename_i hheld
    exact
      { guarded := h.guarded
        undisturbed := fun hnil => by simp [show p.handlers = [] from hnil] at hheld
        handlers := hhandlers
        distinct := h.distinct
        alive := h.alive
        killed := fun other hkilled => by simp [hnone] at hkilled }
  · rename_i hheld
    exact sound_deliver h.guarded hhandlers h.distinct halive hnone List.mem_cons_self
      (by simpa using hheld)

/-- **Every event keeps the process sound.** -/
theorem perform (h : Sound initial p) (event : Event) : Sound initial (p.perform event) := by
  unfold Process.perform
  cases hended : p.hasEnded with
  | true => simpa using h
  | false =>
    simp only [Bool.false_eq_true, if_false]
    match event with
    | .proceed => exact h.proceed hended
    | .signal signal => exact h.receive hended signal
    | .type events =>
      exact
        { guarded := h.guarded
          undisturbed := fun hnil hnone =>
            ⟨(h.undisturbed hnil hnone).1, (h.undisturbed hnil hnone).2.feed events⟩
          handlers := h.handlers
          distinct := h.distinct
          alive := fun hne => (hasExited_feed p.stage events).trans (h.alive hne)
          killed := h.killed }

/-- A whole schedule keeps the process sound. -/
theorem run (h : Sound initial p) (schedule : List Event) : Sound initial (p.run schedule) := by
  induction schedule generalizing p with
  | nil => exact h
  | cons event schedule ih => exact ih (h.perform event)

end Sound

end Process

end TapeMachine

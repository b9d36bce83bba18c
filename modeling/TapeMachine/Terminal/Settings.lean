/-!
# Terminal settings and raw mode

While a program that reads input runs at a terminal, bytes are delivered as they are typed. The
settings found before are saved, and are put back when the run ends and when a signal ends the
process.

## Main definitions

* `TapeMachine.TerminalSettings` — the settings of a terminal that matter here.
* `TapeMachine.TerminalSettings.raw` — the settings with line editing and echo switched off.
* `TapeMachine.SignalTable` — what is done about each of the signals.
* `TapeMachine.RawMode` — the settings in force, those saved, and what is done about signals.
* `TapeMachine.RawMode.enable`, `TapeMachine.RawMode.disable`, `TapeMachine.RawMode.receive` —
  switching to raw mode, back, and the arrival of a signal.
-/

set_option autoImplicit false

namespace TapeMachine

/-- The settings of a terminal. -/
structure TerminalSettings where
  /-- Whether input is delivered in lines that can be edited. -/
  canonical : Bool := true
  /-- Whether typed characters are shown. -/
  echo : Bool := true
  /-- Whether some characters raise signals. -/
  signals : Bool := true
  /-- Whether a carriage return is delivered as a line feed. -/
  returnToLineFeed : Bool := true
  /-- Whether output is processed. -/
  processOutput : Bool := true
  /-- How many bytes a read waits for where input is not delivered in lines. -/
  minimum : Nat := 1
  /-- How long such a read waits, in tenths of a second; zero is without end. -/
  time : Nat := 0
deriving DecidableEq, Repr

/-- The settings with line editing and echo switched off: each byte is delivered as it is
typed. -/
def TerminalSettings.raw (settings : TerminalSettings) : TerminalSettings :=
  { settings with canonical := false, echo := false, minimum := 1, time := 0 }

/-- The signals that ask a process to end. -/
inductive Signal
  /-- The operator interrupts the process. -/
  | interrupt
  /-- The process is to terminate. -/
  | terminate
deriving DecidableEq, Repr

/-- The number of a signal. -/
def Signal.number : Signal → Nat
  | interrupt => 2
  | terminate => 15

/-- What is done about a signal. -/
inductive Disposition
  /-- The process dies of it. -/
  | default
  /-- The saved settings are put back first. -/
  | restoring
deriving DecidableEq, Repr

/-- What is done about each of the signals. -/
structure SignalTable where
  /-- What is done about a request to interrupt. -/
  onInterrupt : Disposition := .default
  /-- What is done about a request to terminate. -/
  onTerminate : Disposition := .default
deriving DecidableEq, Repr

namespace SignalTable

/-- What is done about a signal. -/
def get (table : SignalTable) : Signal → Disposition
  | .interrupt => table.onInterrupt
  | .terminate => table.onTerminate

/-- Lays down what is done about a signal. -/
def set (table : SignalTable) (signal : Signal) (disposition : Disposition) : SignalTable :=
  match signal with
  | .interrupt => { table with onInterrupt := disposition }
  | .terminate => { table with onTerminate := disposition }

end SignalTable

/-- A terminal as far as raw mode is concerned. -/
structure RawMode where
  /-- The settings in force. -/
  settings : TerminalSettings
  /-- The settings from before the first switch to raw mode. -/
  saved? : Option TerminalSettings := none
  /-- What is done about signals. -/
  signals : SignalTable := {}
deriving DecidableEq, Repr

namespace RawMode

/-- Saves the settings in force, unless some have been saved before. -/
def save (mode : RawMode) : RawMode :=
  { mode with saved? := mode.saved?.or (some mode.settings) }

/-- Lays down what is done about a signal. -/
def handle (mode : RawMode) (signal : Signal) (disposition : Disposition) : RawMode :=
  { mode with signals := mode.signals.set signal disposition }

/-- Changes the settings in force. -/
def put (mode : RawMode) (settings : TerminalSettings) : RawMode := { mode with settings }

/-- Switches to raw mode. The settings are saved, and both signals have them put back, before
anything changes. -/
def enable (mode : RawMode) : RawMode :=
  ((mode.save.handle .interrupt .restoring).handle .terminate .restoring).put mode.settings.raw

/-- Puts the settings back that were found by `enable`, and then the handling of signals. -/
def disable (mode found : RawMode) : RawMode :=
  ((mode.put found.settings).handle .interrupt (found.signals.get .interrupt)).handle .terminate
    (found.signals.get .terminate)

/-- What a signal leaves of a terminal. The process dies of the signal either way. -/
def receive (mode : RawMode) (signal : Signal) : RawMode :=
  match mode.signals.get signal with
  | .default => mode
  | .restoring => mode.put (mode.saved?.getD mode.settings)

end RawMode

end TapeMachine

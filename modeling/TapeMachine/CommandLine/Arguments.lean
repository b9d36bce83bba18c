import TapeMachine.Machine.Basic
import TapeMachine.Text.Plain
import TapeMachine.Text.Word

/-!
# Arguments of the command

The first argument names what is to be done; options and the name of the program file follow in
any order. The value of an option stands behind an equals sign, or is the next argument. A value
that is an argument of its own is looked at only when the argument behind it has been recognised,
so an argument that is not recognised is reported before a value that is not valid.

## Main definitions

* `TapeMachine.Options` — the options that every activity takes.
* `TapeMachine.Invocation` — what the command is asked to do.
* `TapeMachine.ArgumentError` — why arguments are not accepted.
* `TapeMachine.Invocation.parse` — the reading of a list of arguments.
-/

set_option autoImplicit false

namespace TapeMachine

/-- The options that every activity takes. -/
structure Options where
  /-- Whether runs of additions and subtractions are folded. -/
  fold : Bool := false
  /-- The set-up of the machine. -/
  config : Config := {}
deriving DecidableEq, Repr

/-- What is done with a program file. -/
inductive FileTask
  /-- It is run. -/
  | run
  /-- It is run under the debugger. -/
  | debug
  /-- It is run and measured. -/
  | benchmark
  /-- It is laid out. -/
  | format
deriving DecidableEq, Repr

/-- What the command is asked to do. -/
inductive Invocation
  /-- Something with a program file. -/
  | file (task : FileTask) (path : String) (options : Options)
  /-- Programs from standard input, one in each line. -/
  | shell (options : Options)
  /-- The version. -/
  | version
  /-- A summary of the arguments. -/
  | help
deriving DecidableEq, Repr

/-- The options that take a number. -/
inductive NumericOption
  /-- How many output bytes are collected. -/
  | flushThreshold
  /-- How many cells the tape may hold. -/
  | tapeLimit
  /-- How far the debugger shows the tape. -/
  | radius
deriving DecidableEq, Repr

namespace NumericOption

/-- The name of an option. -/
def name : NumericOption → String
  | flushThreshold => "flush-threshold"
  | tapeLimit => "tape-limit"
  | radius => "radius"

/-- An option as it is shown in reports. -/
def usage : NumericOption → String
  | flushThreshold => "--flush-threshold <FLUSH_THRESHOLD>"
  | tapeLimit => "--tape-limit <TAPE_LIMIT>"
  | radius => "--radius <RADIUS>"

/-- The option of a name. -/
def ofName? (name : String) : Option NumericOption :=
  [flushThreshold, tapeLimit, radius].find? (·.name == name)

/-- The number that a value stands for, or why the option does not take it. -/
def parse (option : NumericOption) (value : String) : Except String Nat :=
  match option, Text.parseWord value with
  | _, .error e => .error e.message
  | .tapeLimit, .ok 0 =>
    .error "the tape always holds cell 0, the limit must be at least 1"
  | _, .ok n => .ok n

end NumericOption

/-- Why arguments are not accepted. -/
inductive ArgumentError
  /-- There is nothing to be done. -/
  | noCommand
  /-- What is to be done is not known. -/
  | unknownCommand (name : String)
  /-- An argument has no meaning where it stands. -/
  | unexpected (argument : String)
  /-- No program file is named. -/
  | missingFile
  /-- Something that needs a value has none. -/
  | missingValue (usage : String)
  /-- Something is given twice that can be given once. -/
  | repeated (usage : String)
  /-- Something that takes no value has one. -/
  | unneededValue (usage value : String)
  /-- A value is not valid. -/
  | invalidValue (usage value reason : String)
deriving DecidableEq, Repr

/-- The report of arguments that are not accepted. What has been given is quoted as plain text. -/
def ArgumentError.message : ArgumentError → String
  | noCommand => "Tape language virtual machine"
  | unknownCommand name => s!"error: unrecognized subcommand '{Text.plain name}'"
  | unexpected argument => s!"error: unexpected argument '{Text.plain argument}' found"
  | missingFile => "error: the following required arguments were not provided:"
  | missingValue usage => s!"error: a value is required for '{usage}' but none was supplied"
  | repeated usage => s!"error: the argument '{usage}' cannot be used multiple times"
  | unneededValue usage value =>
    s!"error: unexpected value '{Text.plain value}' for '{usage}' found; no more were expected"
  | invalidValue usage value reason =>
    s!"error: invalid value '{Text.plain value}' for '{usage}': {reason}"

/-! ## The shape of single arguments -/

/-- What an argument looks like, before it is known whether it has a meaning. -/
inductive ArgumentShape
  /-- Two dashes alone: only names follow. -/
  | separator
  /-- A long option, possibly with a value behind an equals sign. -/
  | long (name : String) (value? : Option String)
  /-- One dash and short options. -/
  | short (flags : List Char)
  /-- A name or a value. -/
  | plain
deriving DecidableEq, Repr

/-- The shape of an argument. -/
def ArgumentShape.of (argument : String) : ArgumentShape :=
  match argument.toList with
  | ['-', '-'] => separator
  | '-' :: '-' :: rest =>
    let name := rest.takeWhile (· ≠ '=')
    match rest.drop name.length with
    | [] => long (String.ofList name) none
    | _ :: value => long (String.ofList name) (some (String.ofList value))
  | ['-'] => plain
  | '-' :: flags => short flags
  | _ => plain

/-! ## The arguments behind the first -/

/-- An argument that has been recognised and not yet looked at. -/
inductive Pending
  /-- The name of the program file. -/
  | file (path : String)
  /-- An option and the argument behind it, if there has been one. -/
  | option (option : NumericOption) (value? : Option String)
deriving DecidableEq, Repr

/-- What the arguments read so far amount to. -/
structure ArgumentScan where
  /-- Whether a program file may be named. -/
  takesFile : Bool
  /-- The name of the program file. -/
  path? : Option String := none
  /-- Whether folding has been asked for. -/
  fold : Bool := false
  /-- The numbers given so far. -/
  numbers : List (NumericOption × Nat) := []
  /-- The argument that is still to be looked at. -/
  pending? : Option Pending := none
deriving DecidableEq, Repr

/-- What reading further arguments leads to. -/
inductive ScanResult
  /-- All arguments have been read. -/
  | done (scan : ArgumentScan)
  /-- The summary of the arguments is asked for. -/
  | help
deriving DecidableEq, Repr

namespace ArgumentScan

/-- Looks at the value of an option. -/
def setNumber (scan : ArgumentScan) (option : NumericOption) (value : String) :
    Except ArgumentError ArgumentScan :=
  if (scan.numbers.lookup option).isSome then .error (.repeated option.usage)
  else
    match option.parse value with
    | .error reason => .error (.invalidValue option.usage value reason)
    | .ok n => .ok { scan with numbers := (option, n) :: scan.numbers }

/-- Looks at the argument that is pending. -/
def settle (scan : ArgumentScan) : Except ArgumentError ArgumentScan :=
  let settled := { scan with pending? := none }
  match scan.pending? with
  | none => .ok settled
  | some (.file path) =>
    if path.isEmpty then .error (.missingValue "<FILE>")
    else .ok { settled with path? := some path }
  | some (.option option none) => .error (.missingValue option.usage)
  | some (.option option (some value)) => settled.setNumber option value

/-- Asks for folding. -/
def setFold (scan : ArgumentScan) : Except ArgumentError ArgumentScan := do
  let scan ← scan.settle
  if scan.fold then throw (.repeated "--optimize")
  pure { scan with fold := true }

/-- Reads a long option. The result is `none` if the summary is asked for. -/
def long (scan : ArgumentScan) (name : String) (value? : Option String) :
    Except ArgumentError (Option ArgumentScan) :=
  match name, value? with
  | "optimize", none => some <$> scan.setFold
  | "optimize", some value => throw (.unneededValue "--optimize" value)
  | "help", none => do
    let _ ← scan.settle
    pure none
  | "help", some value => throw (.unneededValue "--help" value)
  | _, _ =>
    match NumericOption.ofName? name with
    | none => throw (.unexpected s!"--{name}")
    | some option => do
      let scan ← scan.settle
      match value? with
      | some value => some <$> scan.setNumber option value
      | none => pure (some { scan with pending? := some (.option option none) })

/-- Reads short options. The result is `none` if the summary is asked for. -/
def short (scan : ArgumentScan) : List Char → Except ArgumentError (Option ArgumentScan)
  | [] => pure (some scan)
  | 'O' :: rest => do (← scan.setFold).short rest
  | 'h' :: _ => do
    let _ ← scan.settle
    pure none
  | flag :: _ => throw (.unexpected s!"-{flag}")

/-- Takes an argument as the value of the option in front of it. -/
def withValue (scan : ArgumentScan) (option : NumericOption) (value : String) : ArgumentScan :=
  { scan with pending? := some (.option option (some value)) }

/-- Whether a program file has been named. -/
def named (scan : ArgumentScan) : Bool :=
  match scan.pending? with
  | some (.file _) => true
  | _ => scan.path?.isSome

/-- Reads a name: that of the program file, unless it has been given already. -/
def name (scan : ArgumentScan) (argument : String) : Except ArgumentError ArgumentScan :=
  if scan.takesFile && !scan.named then do
    let scan ← scan.settle
    pure { scan with pending? := some (.file argument) }
  else
    throw (.unexpected argument)

/-- Reads arguments. Behind the separator all of them are names. -/
def read (scan : ArgumentScan) (namesOnly : Bool) : List String → Except ArgumentError ScanResult
  | [] => .done <$> scan.settle
  | argument :: rest => do
    if namesOnly then
      (← scan.name argument).read true rest
    else
      match ArgumentShape.of argument with
      | .separator => scan.read true rest
      | .long name value? =>
        match ← scan.long name value? with
        | none => pure .help
        | some scan => scan.read false rest
      | .short flags =>
        match ← scan.short flags with
        | none => pure .help
        | some scan => scan.read false rest
      | .plain =>
        match scan.pending? with
        | some (.option option none) =>
          (scan.withValue option argument).read false rest
        | _ => (← scan.name argument).read false rest

/-- The options that have been read; what is not given has its usual value. -/
def options (scan : ArgumentScan) : Options where
  fold := scan.fold
  config :=
    { threshold := (scan.numbers.lookup .flushThreshold).getD ({} : Config).threshold
      tapeLimit := scan.numbers.lookup .tapeLimit
      radius := (scan.numbers.lookup .radius).getD ({} : Config).radius }

end ArgumentScan

/-! ## The first argument -/

namespace Invocation

/-- The task with a program file that goes by a name. -/
def task? : String → Option FileTask
  | "run" => some .run
  | "debug" => some .debug
  | "benchmark" => some .benchmark
  | "format" => some .format
  | _ => none

/-- Whether a name stands for something that the command can do. -/
def known (name : String) : Bool :=
  (task? name).isSome || name == "shell" || name == "help"

/-- Reads the arguments behind the name of a task. -/
def parseTask (task : FileTask) (arguments : List String) :
    Except ArgumentError Invocation := do
  match ← ArgumentScan.read { takesFile := true } false arguments with
  | .help => pure help
  | .done scan =>
    match scan.path? with
    | none => throw .missingFile
    | some path => pure (file task path scan.options)

/-- Reads the arguments of the shell. -/
def parseShell (arguments : List String) : Except ArgumentError Invocation := do
  match ← ArgumentScan.read { takesFile := false } false arguments with
  | .help => pure help
  | .done scan => pure (shell scan.options)

/-- Reads the arguments of a request for help. Nothing is to be asked about a known activity but
the activity itself. -/
def parseHelp : List String → Except ArgumentError Invocation
  | [] => pure help
  | [name] => if known name then pure help else throw (.unknownCommand name)
  | name :: detail :: _ => throw (.unknownCommand (if known name then detail else name))

/-- Reads short options in front of what is to be done. -/
def parseShort : List Char → Except ArgumentError Invocation
  | 'V' :: _ => pure version
  | 'h' :: _ => pure help
  | flag :: _ => throw (.unexpected s!"-{flag}")
  | [] => throw .noCommand

/-- Reads the arguments of the command. -/
def parse : List String → Except ArgumentError Invocation
  | [] => throw .noCommand
  | first :: rest =>
    match task? first, first with
    | some task, _ => parseTask task rest
    | none, "shell" => parseShell rest
    | none, "help" => parseHelp rest
    | none, _ =>
      match ArgumentShape.of first with
      | .separator =>
        match rest with
        | [] => throw .noCommand
        | name :: _ => throw (if known name then .unexpected name else .unknownCommand name)
      | .long "version" none => pure version
      | .long "help" none => pure help
      | .long "version" (some value) => throw (.unneededValue "--version" value)
      | .long "help" (some value) => throw (.unneededValue "--help" value)
      | .long name _ => throw (.unexpected s!"--{name}")
      | .short flags => parseShort flags
      | .plain => throw (.unknownCommand first)

end Invocation

end TapeMachine

import TapeMachine.Text.Blank
import TapeMachine.Text.Utf8
import TapeMachine.Text.Word

/-!
# The log

The command can keep a log of what it does. A filter, given as a list of directives, tells which
records are written.

A directive is a level, a target, or both as `target=level`. It may also name a span or a field in
brackets behind the target: such a directive concerns records inside that span, of which this
command has none, or records with that field.

## Main definitions

* `TapeMachine.LogRecord` — a level, a target, a message and some fields.
* `TapeMachine.LogFilter.parse?` — the filter that a text stands for.
* `TapeMachine.LogFilter.enables` — whether a filter lets a record through.
-/

set_option autoImplicit false

namespace TapeMachine

/-- How important a record is. -/
inductive LogLevel
  /-- Something has failed. -/
  | error
  /-- Something looks wrong. -/
  | warn
  /-- What has been done. -/
  | info
  /-- How it is being done. -/
  | debug
  /-- Every detail. -/
  | trace
deriving DecidableEq, Repr

/-- The verbosity at which records of a level begin to be written. -/
def LogLevel.rank : LogLevel → Nat
  | error => 1
  | warn => 2
  | info => 3
  | debug => 4
  | trace => 5

/-- The name of a level, five characters wide. -/
def LogLevel.label : LogLevel → String
  | error => "ERROR"
  | warn => " WARN"
  | info => " INFO"
  | debug => "DEBUG"
  | trace => "TRACE"

/-- A record of the log. -/
structure LogRecord where
  /-- How important it is. -/
  level : LogLevel
  /-- The part of the command that it comes from. -/
  target : String
  /-- What it tells. -/
  message : String
  /-- Named values that go with the message. -/
  fields : List (String × String) := []
deriving DecidableEq, Repr

/-- A record as a line of text that begins with a time stamp. -/
def LogRecord.line (record : LogRecord) (stamp : String) : String :=
  s!"{stamp} {record.level.label} {record.target}: {record.message}" ++
    String.join (record.fields.map fun (name, value) => s!" {name}={value}") ++ "\n"

/-- A rule about the records of a target. -/
structure Directive where
  /-- What the target of a record has to begin with. -/
  target? : Option String
  /-- The field that a record has to have. -/
  field? : Option String
  /-- The greatest rank of level that is let through. -/
  rank : Nat
deriving DecidableEq, Repr

namespace Directive

/-- Whether a directive has something to tell about a record. -/
def concerns (d : Directive) (record : LogRecord) : Bool :=
  (d.target?.all fun target => target.isPrefixOf record.target) &&
    d.field?.all fun name => name == "message" || record.fields.any (·.1 == name)

/-- Whether a name comes before another one in the order of their characters. -/
def precedes (a b : String) : Bool :=
  a.toList.lex b.toList fun x y => x.toNat < y.toNat

/-- Whether a directive is at least as specific as another one: a longer target is more specific
than a shorter one, and any target than none. Between targets of one length a directive with a field
is more specific than one without, and the greater name of a field decides. -/
def refines (d e : Directive) : Bool :=
  let weight (target? : Option String) : Nat := target?.elim 0 fun t => t.utf8ByteSize + 1
  if weight d.target? = weight e.target? then
    e.field?.all fun lesser => d.field?.any fun greater => !precedes greater lesser
  else
    weight e.target? ≤ weight d.target?

/-- The rank that a text stands for: the name of a level in any case, or its number. -/
def rank? (text : String) : Option Nat :=
  match Text.parseWord text with
  | .ok rank => if rank ≤ 5 then some rank else none
  | .error _ =>
    match text.toLower with
    | "off" => some 0
    | "error" => some 1
    | "warn" => some 2
    | "info" => some 3
    | "debug" => some 4
    | "trace" => some 5
    | _ => none

/-- The rank behind an equals sign. Where nothing stands there, everything is let through. -/
def rankOrAll? (text : String) : Option Nat :=
  if text.isEmpty then some 5 else rank? text

/-- The size of characters in bytes. -/
def size (text : List Char) : Nat := (String.ofList text).utf8ByteSize

/-- The part of a text from one place up to another. Places count bytes. -/
def slice (text : String) (start stop : Nat) : String :=
  (Text.decode? (((Text.encode text).take stop).drop start)).getD ""

/-- The part of a text from a place on. -/
def sliceFrom (text : String) (start : Nat) : String := slice text start text.utf8ByteSize

/-- What follows the closing bracket of a directive, at a place of the text: nothing, or a
level. -/
def closing? (text : String) (place : Nat) : List Char → Option Nat
  | [] => some 5
  | '=' :: _ => rankOrAll? (sliceFrom text (place + 1))
  | _ => none

/-- A directive that goes on behind an opening bracket, at a place of the text. The inner result is
`none` if it concerns only records inside a span, or with certain values. -/
def bracketed? (text : String) (target? : Option String) (place : Nat) (rest : List Char) :
    Option (Option Directive) :=
  let name := rest.takeWhile fun c => c ≠ ']' ∧ c ≠ '\x7b'
  let place := place + size name + 1
  match rest.drop name.length with
  | ']' :: rest => (closing? text place rest).map fun _ => none
  | '\x7b' :: rest =>
    let field := rest.takeWhile (· ≠ '\x7d')
    match rest.drop field.length with
    | '\x7d' :: ']' :: rest =>
      if field.isEmpty then none
      else
        let stop := place + size field
        let field := slice text place stop
        (closing? text (stop + 2) rest).map fun rank =>
          if name.isEmpty ∧ !field.contains '=' then some { target?, field? := some field, rank }
          else none
    | _ => none
  | _ => none

/-- Whether a directive can begin with a character, if not with a bracket. -/
def isFirst (c : Char) : Bool := c.isAlphanum || c ∈ ['-', ':', '_'] || 0x80 ≤ c.toNat

/-- The directive that a text stands for, if it is well-formed. The inner result is `none` if it
concerns no record of this command.

Where a part begins and ends is found in the text without the blanks around it; the part is then
taken from the text itself, at the same places. So a level with a blank behind it is none. -/
def parse? (text : String) : Option (Option Directive) :=
  let stripped := (Text.strip text).toList
  match stripped with
  | [] => none
  | '[' :: rest => bracketed? text none 1 rest
  | first :: _ =>
    if isFirst first then
      let name := stripped.takeWhile fun c => c ≠ '=' ∧ c ≠ '['
      let stop := size name
      let target? := some (slice text 0 stop)
      match stripped.drop name.length with
      | [] =>
        match rank? text with
        | some rank => some (some { target? := none, field? := none, rank })
        | none => some (some { target? := some text, field? := none, rank := 5 })
      | '[' :: rest => bracketed? text target? (stop + 1) rest
      | _ =>
        (rankOrAll? (sliceFrom text (stop + 1))).map fun rank =>
          some { target?, field? := none, rank }
    else
      none

end Directive

/-- A list of directives. -/
structure LogFilter where
  /-- The directives, in the order in which they were given. -/
  directives : List Directive
deriving DecidableEq, Repr

namespace LogFilter

/-- The filter that lets records of one rank and below through. -/
def upTo (rank : Nat) : LogFilter := ⟨[{ target? := none, field? := none, rank }]⟩

/-- The filter that a text stands for: directives separated by commas. Without any directive only
errors are let through. -/
def parse? (text : String) : Option LogFilter :=
  let parts := (text.splitOn ",").filter fun part => !part.isEmpty
  (parts.mapM Directive.parse?).map fun directives =>
    if directives.isEmpty then upTo 1 else ⟨directives.filterMap id⟩

/-- The filter for the value of the environment variable. Without one, and where it is not
well-formed, warnings and errors are let through. -/
def ofVariable (value? : Option String) : LogFilter :=
  (value?.bind parse?).getD (upTo 2)

/-- The directive that decides about a record: the most specific one that concerns it, and the
last of several equally specific ones. -/
def deciding? (filter : LogFilter) (record : LogRecord) : Option Directive :=
  filter.directives.foldl
    (fun best? d =>
      if d.concerns record ∧ best?.all d.refines then some d else best?)
    none

/-- Whether a filter lets a record through. -/
def enables (filter : LogFilter) (record : LogRecord) : Bool :=
  match filter.deciding? record with
  | some d => record.level.rank ≤ d.rank
  | none => false

end LogFilter

end TapeMachine

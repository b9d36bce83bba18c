/-!
# Failures of reading and writing

## Main definitions

* `TapeMachine.IoError` — why a read, a write or a flush failed.
* `TapeMachine.IoError.message` — how each failure is reported.
-/

set_option autoImplicit false

namespace TapeMachine

/-- Why a read, a write or a flush failed. -/
inductive IoError
  /-- The reader is broken. -/
  | brokenSource
  /-- The writer is broken. -/
  | brokenSink
  /-- The writer cannot flush. -/
  | brokenFlush
  /-- The writer has no room left. -/
  | sinkFull
  /-- The writer accepted nothing although there was something to write. -/
  | wroteNothing
  /-- A line of text is not encoded in UTF-8. -/
  | invalidUtf8
  /-- No file has this name. -/
  | notFound
  /-- A file stands where a path needs a directory. -/
  | notDirectory
  /-- A directory stands where a file is needed. -/
  | isDirectory
  /-- A part of a path is longer than file names may be. -/
  | nameTooLong
  /-- The device is full. -/
  | noSpace
deriving DecidableEq, Repr

/-- The report of a failure. -/
def IoError.message : IoError → String
  | brokenSource => "broken source"
  | brokenSink => "broken sink"
  | brokenFlush => "broken flush"
  | sinkFull => "sink is full"
  | wroteNothing => "failed to write whole buffer"
  | invalidUtf8 => "stream did not contain valid UTF-8"
  | notFound => "No such file or directory (os error 2)"
  | notDirectory => "Not a directory (os error 20)"
  | isDirectory => "Is a directory (os error 21)"
  | nameTooLong => "File name too long (os error 36)"
  | noSpace => "No space left on device (os error 28)"

end TapeMachine

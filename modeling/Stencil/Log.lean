import Stencil.Text.Control

/-!
# Log records

A record has a level, the topic it belongs to and a text. Records are values; who keeps or shows
them decides elsewhere.

* `Record.line`: a record as it is shown.
-/

namespace Stencil

/-- How grave a record is. -/
inductive Level where
  | error
  | warn
  | info
  | debug
  deriving DecidableEq, Repr

/-- The place of a level in the order of gravity, the gravest first. -/
def Level.rank : Level → Nat
  | .error => 0
  | .warn => 1
  | .info => 2
  | .debug => 3

/-- Whether records of the level `level` are shown under the limit `limit`. -/
def Level.shows (limit level : Level) : Bool := level.rank ≤ limit.rank

def Level.label : Level → Text
  | .error => "ERROR"
  | .warn => "WARN"
  | .info => "INFO"
  | .debug => "DEBUG"

/-- What a record is about. -/
inductive Topic where
  | run
  | definitions
  | files
  | catalog
  | command
  deriving DecidableEq, Repr

/-- The name of a topic, as shown in front of a record. -/
def Topic.label : Topic → Text
  | .run => "xdtemplates_core::runner"
  | .definitions => "xdtemplates_core::variables"
  | .files => "xdtemplates_core::fs"
  | .catalog => "xdtemplates_core::catalog"
  | .command => "xdtemplates::commands::generate"

/-- A log record. -/
structure Record where
  level : Level
  topic : Topic
  text : Text
  deriving DecidableEq, Repr

/-- The text with the lines after the first one moved in by four blanks. -/
def Text.indentFurtherLines (text : Text) : Text :=
  text.flatMap fun c => if c = '\n' then "\n    " else [c]

/-- The record as a line: its level in a column of five, its topic, its text. Control sequences in
the text are left out, even one that reaches over the end of the line. -/
def Record.line (record : Record) : Text :=
  let level := record.level.label
  Text.withoutControls (.concat ["[", level, List.replicate (5 - level.length) ' ', " ",
    record.topic.label, "] ", record.text.indentFurtherLines, "\n"])

end Stencil

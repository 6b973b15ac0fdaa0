import LispHeap.Heap.Basic

/-!
# Log records

Every placed box is recorded at trace level. Debug level has the rarer events: a task that gives
up on its own account, and the start and end of a launch.
-/

namespace LispHeap

/-- An event worth a line in the log. -/
inductive Record where
  | placed (tag : Tag) (h : Handle)
  | panicked (message : String)
  | launching
  | finished
  deriving DecidableEq

/-- How much of the log is shown. -/
inductive LogLevel where
  | off
  | debug
  | trace
  deriving DecidableEq

namespace LogLevel

/-- The level of a name. -/
def ofName? : String → Option LogLevel
  | "off" => some .off
  | "debug" => some .debug
  | "trace" => some .trace
  | _ => none

/-- Whether a record is shown: boxes in a trace only. -/
def shows : LogLevel → Record → Bool
  | .off, _ => false
  | .debug, .placed .. => false
  | .debug, _ => true
  | .trace, _ => true

end LogLevel

namespace Record

/-- The line of a record: level, source and message. -/
def line : Record → String
  | .placed tag h =>
    "TRACE kons_runtime::boxed::heap: placed " ++ tag.name ++ " box at index " ++ h.index.repr
  | .panicked message => "DEBUG kons_runtime::task: task panicked: " ++ message
  | .launching => "DEBUG kons_runtime::compiler_support: launching task"
  | .finished => "DEBUG kons_runtime::compiler_support: task finished"

/-- The lines that a level shows, in order. -/
def lines (level : LogLevel) (records : List Record) : List String :=
  (records.filter level.shows).map line

end Record

end LispHeap

/-!
# Log records

A record has a level and a text. A logger lets through the records at or above its level and prints
them in lines; only the first logger that is installed takes effect.
-/

namespace Cospend

/-- The severity of a record, from the gravest on. -/
inductive LogLevel where
  /-- An operation did not succeed. -/
  | error
  /-- Something unusual was put right. -/
  | warn
  /-- What the program does. -/
  | info
  /-- How it does it. -/
  | debug
  /-- Every move. -/
  | trace
  deriving DecidableEq, Repr

namespace LogLevel

/-- The distance from the gravest level, which is one. -/
def number : LogLevel → Nat
  | .error => 1
  | .warn => 2
  | .info => 3
  | .debug => 4
  | .trace => 5

def name : LogLevel → String
  | .error => "ERROR"
  | .warn => "WARN"
  | .info => "INFO"
  | .debug => "DEBUG"
  | .trace => "TRACE"

end LogLevel

structure LogRecord where
  level : LogLevel
  text : String
  deriving DecidableEq, Repr

/-- The lowest level that a logger lets through, or nothing if it lets nothing through. -/
abbrev LogFilter := Option LogLevel

namespace LogFilter

def number : LogFilter → Nat
  | none => 0
  | some level => level.number

def name : LogFilter → String
  | none => "OFF"
  | some level => level.name

/-- The filter with a name, in letters of either case. -/
def ofName? (name : String) : Option LogFilter :=
  match name.toUpper with
  | "OFF" => some none
  | "ERROR" => some (some .error)
  | "WARN" => some (some .warn)
  | "INFO" => some (some .info)
  | "DEBUG" => some (some .debug)
  | "TRACE" => some (some .trace)
  | _ => none

def admits (filter : LogFilter) (level : LogLevel) : Bool := level.number ≤ filter.number

end LogFilter

/-- The logger after another one was to be installed. -/
def installLogger (installed : Option LogFilter) (filter : LogFilter) : Option LogFilter :=
  installed.or (some filter)

/-- A line without the carriage return at its end. -/
def withoutReturn (line : String) : String :=
  if line.toList.getLast? = some '\r' then String.ofList line.toList.dropLast else line

/-- The lines of a text. A line ends with a line feed, and a carriage return right before it belongs
to the end of the line. -/
def linesOf (text : String) : List String := (text.splitOn "\n").map withoutReturn

/-- The record as it is printed, with the time in brackets before the level. -/
def LogRecord.printed (r : LogRecord) (time : String) : String :=
  s!"[{time}][{r.level.name}] {r.text}"

/-- The lines that a logger prints for a record. -/
def printedLines (installed : Option LogFilter) (time : String) (r : LogRecord) : List String :=
  match installed with
  | none => []
  | some filter => if filter.admits r.level then linesOf (r.printed time) else []

end Cospend

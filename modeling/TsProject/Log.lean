import TsProject.Fault
import TsProject.Json.Printer
import TsProject.Text.Lower

/-!
# Log records

A log record has a level, the name of an event and fields. Records are written one per line,
either for readers, with the fields in order of name, or as objects of the data format, with the
fields in the order given. A log shows the records of some level and above.
-/

namespace TsProject

/-- The levels of log records. -/
inductive LogLevel where
  | debug
  | info
  | warning
  | error
  | critical
  deriving DecidableEq, Repr

namespace LogLevel

/-- The word for a level. -/
def text : LogLevel → String
  | .debug => "debug"
  | .info => "info"
  | .warning => "warning"
  | .error => "error"
  | .critical => "critical"

/-- The weight of a level. -/
def weight : LogLevel → Nat
  | .debug => 10
  | .info => 20
  | .warning => 30
  | .error => 40
  | .critical => 50

/-- A level by its word, or a synonym of it. -/
def ofText? (s : String) : Option LogLevel :=
  [("debug", debug), ("info", .info), ("msg", .info), ("warning", .warning), ("warn", .warning),
   ("error", .error), ("exception", .error), ("critical", .critical), ("fatal", .critical)].lookup s

/-- The names of thresholds and the least weight that each shows. -/
def thresholds : List (String × Nat) :=
  [("CRITICAL", 50), ("FATAL", 50), ("ERROR", 40), ("WARN", 30), ("WARNING", 30), ("INFO", 20),
   ("DEBUG", 10), ("NOTSET", 0)]

/-- A character in upper case, as far as names of thresholds can hold it: the letters of the
basic alphabet, the dotless i and the long s, and ligatures of such letters. -/
def upperChar (c : Char) : List Char :=
  if c = 'ı' then ['I']
  else if c = 'ſ' then ['S']
  else if c = 'ﬁ' then ['F', 'I']
  else if c = 'ﬂ' then ['F', 'L']
  else if c = 'ﬀ' then ['F', 'F']
  else if c = 'ﬃ' then ['F', 'F', 'I']
  else if c = 'ﬄ' then ['F', 'F', 'L']
  else if c = 'ﬅ' || c = 'ﬆ' then ['S', 'T']
  else if c = 'ß' then ['S', 'S']
  else [c.toUpper]

/-- **The least weight shown** by a threshold, which may be written in any case. -/
def threshold (name : String) : Except Fault Nat :=
  match thresholds.lookup (String.ofList (name.toList.flatMap upperChar)) with
  | some weight => .ok weight
  | none => .error (.unknownLevel name)

end LogLevel

/-- A log record. -/
structure LogRecord where
  level : LogLevel
  event : String
  fields : Fields := []

/-- How a log is written. -/
structure LogFormat where
  /-- The least weight of the records shown. -/
  threshold : Nat
  /-- Records are written as objects. -/
  asObjects : Bool

namespace LogRecord

/-- The record as an object: its fields, then event, level and time. -/
def toFields (r : LogRecord) (time : String) : Fields :=
  ((r.fields.set "event" (.str r.event)).set "level" (.str r.level.text)).set
    "timestamp" (.str time)

/-- A text is written without quotes when it holds none of these. -/
def needsQuotes (s : String) : Bool :=
  s.toList.any fun c =>
    c = ' ' || c = '\t' || c = '=' || c = '\r' || c = '\n' || c = '"' || c = '\''

/-- The value of a field for readers. -/
def fieldText : Json → String
  | .str s => if needsQuotes s then Text.quoted s else s
  | v => v.literal

/-- A text with blanks behind it up to a width. -/
def padRight (width : Nat) (s : String) : String := s ++ "".pushn ' ' (width - s.length)

/-- The line of a record for readers. -/
def line (r : LogRecord) (time : String) : String :=
  let fields := r.fields.filter fun kv => !(["event", "level", "timestamp"].contains kv.1)
  let sorted := fields.mergeSort fun a b => a.1 ≤ b.1
  let parts := [time, "[" ++ padRight 9 r.level.text ++ "]", padRight 30 r.event] ++
    sorted.map fun kv => kv.1 ++ "=" ++ fieldText kv.2
  String.ofList ((" ".intercalate parts).toList.reverse.dropWhile (· = ' ')).reverse

/-- **The line of a record**, if the format shows it. -/
def render? (f : LogFormat) (time : String) (r : LogRecord) : Option String :=
  if r.level.weight < f.threshold then none
  else if f.asObjects then some (Json.render (.obj (r.toFields time)))
  else some (r.line time)

end LogRecord

/-- Digits of base sixteen in front of which zeros are put. -/
def identifierText (width n : Nat) : String := String.ofList (Text.hexDigits width n)

/-- The fields with the identifiers of the active trace and span, where both are valid. -/
def addTraceContext (traceId spanId : Nat) (fields : Fields) : Fields :=
  if traceId = 0 || spanId = 0 then fields
  else
    (fields.set "trace_id" (.str (identifierText 32 traceId))).set "span_id"
      (.str (identifierText 16 spanId))

end TsProject

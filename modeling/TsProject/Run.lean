import TsProject.Log

/-!
# Runs

A run of the program acts on a session: it reads and changes the world, writes log records and
messages for the host, opens and closes spans, starts processes. It either answers or ends in a
fault; what it did before a fault stays done. A span is finished when its body is, in either way.
-/

namespace TsProject

/-- What a run tells the outside. -/
inductive Event where
  | log (record : LogRecord)
  /-- A message for the host, which may be an error. -/
  | host (isError : Bool) (text : String)

/-- An attribute of a span. -/
inductive Attribute where
  | value (v : Json)
  /-- The time that something took. -/
  | elapsed

/-- How a span ended. -/
inductive SpanStatus where
  | ok
  | fault (fault : Fault)
  deriving DecidableEq

/-- A stretch of a run. -/
structure Span where
  name : String
  attributes : List (String × Attribute)
  /-- It lies within another one. -/
  isChild : Bool

/-- A span that has ended. -/
structure FinishedSpan where
  span : Span
  status : SpanStatus

/-- A started process: its arguments, its directory and the bytes of the project file at that
moment. -/
structure ProcessStart where
  args : List String
  cwd : Option String := none
  project : Option (List UInt8) := none
  deriving DecidableEq

/-- What a run acts on, and what it has done so far. -/
structure Session where
  world : World
  events : List Event := []
  finished : List FinishedSpan := []
  /-- The spans that are open, the innermost first. -/
  openSpans : List Span := []
  starts : List ProcessStart := []

/-- A run that answers with an `α` or ends in a fault. -/
abbrev Run := ExceptT Fault (StateM Session)

namespace Run

/-- The world as it is. -/
def world : Run World := return (← get).world

/-- Puts another world in place. -/
def setWorld (w : World) : Run Unit := modify fun s => { s with world := w }

/-- Tells something to the outside. -/
def tell (e : Event) : Run Unit := modify fun s => { s with events := s.events ++ [e] }

/-- Writes a log record. -/
def log (level : LogLevel) (event : String) (fields : Fields := []) : Run Unit :=
  tell (.log ⟨level, event, fields⟩)

/-- Tells the host something. -/
def logInfo (text : String) : Run Unit := tell (.host false text)

/-- Tells the host of an error. -/
def logError (text : String) : Run Unit := tell (.host true text)

/-- Notes that a process is started. -/
def noteStart (start : ProcessStart) : Run Unit :=
  modify fun s => { s with starts := s.starts ++ [start] }

/-- An answer or a fault. -/
def ofExcept : Except Fault α → Run α
  | .ok a => return a
  | .error e => throw e

/-- The list of attributes with a value under a name, in place when the name occurs. -/
def setIn (name : String) (v : Attribute) : List (String × Attribute) → List (String × Attribute)
  | [] => [(name, v)]
  | (n, old) :: rest => if n = name then (n, v) :: rest else (n, old) :: setIn name v rest

/-- Sets attributes of the innermost open span. -/
def setAttributes (attributes : List (String × Attribute)) : Run Unit :=
  modify fun s =>
    match s.openSpans with
    | [] => s
    | span :: rest =>
      let span := { span with
        attributes := attributes.foldl (fun as a => setIn a.1 a.2 as) span.attributes }
      { s with openSpans := span :: rest }

/-- Opens a span. -/
def openSpan (name : String) (attributes : List (String × Attribute)) (s : Session) : Session :=
  { s with openSpans := ⟨name, attributes, !s.openSpans.isEmpty⟩ :: s.openSpans }

/-- Closes the innermost span. -/
def closeSpan (status : SpanStatus) (s : Session) : Session :=
  match s.openSpans with
  | [] => s
  | span :: rest => { s with openSpans := rest, finished := s.finished ++ [⟨span, status⟩] }

/-- **A span around a run.** -/
def withSpan (name : String) (attributes : List (String × Attribute)) (body : Run α) : Run α :=
  fun s =>
    match body (openSpan name attributes s) with
    | (.ok a, s) => (.ok a, closeSpan .ok s)
    | (.error e, s) => (.error e, closeSpan (.fault e) s)

/-- Runs something and, however it ends, something else after it; a fault of the latter wins. -/
def ensuring (body : Run α) (last : Run Unit) : Run α :=
  fun s =>
    let (result, s) := body s
    match last s with
    | (.ok (), s) => (result, s)
    | (.error e, s) => (.error e, s)

end Run

/-- The results that a span may carry. -/
structure SpanResults where
  inputFiles : Option Nat := none
  compilerVersion : Option String := none
  preDiagnostics : Option Nat := none
  emitDiagnostics : Option Nat := none
  emittedFiles : Option Nat := none
  elapsed : Option Attribute := none
  outcome : Option String := none
  errorKind : Option String := none

/-- The attributes of the results that are there, in their fixed order. -/
def SpanResults.attributes (r : SpanResults) : List (String × Attribute) :=
  let number (name : String) (n : Option Nat) : Option (String × Attribute) :=
    n.map fun n => (name, .value (.int n))
  let text (name : String) (s : Option String) : Option (String × Attribute) :=
    s.map fun s => (name, .value (.str s))
  [number "kist.typescript.input_files" r.inputFiles,
   text "tsc.version" r.compilerVersion,
   number "tsc.diagnostics.pre_emit" r.preDiagnostics,
   number "tsc.diagnostics.emit" r.emitDiagnostics,
   number "tsc.emitted_files" r.emittedFiles,
   r.elapsed.map fun a => ("tsc.execution_time_seconds", a),
   text "kist.typescript.outcome" r.outcome,
   text "kist.typescript.error_kind" r.errorKind].filterMap id

/-- Notes results in the innermost open span. -/
def Run.setResults (r : SpanResults) : Run Unit := setAttributes r.attributes

/-- The span around a whole run. -/
def Run.pipelineSpan (configPath : String) (body : Run α) : Run α :=
  withSpan "kist.typescript.pipeline"
    [("kist.typescript.config_path", .value (.str configPath))] body

/-- The span around an operation of the compiler. -/
def Run.compilerSpan (operation : String) (baseDir : Option String) (body : Run α) : Run α :=
  withSpan ("tsc." ++ operation)
    (("tsc.operation", .value (.str operation)) ::
      (baseDir.map fun dir => ("tsc.base_dir", Attribute.value (.str dir))).toList) body

end TsProject

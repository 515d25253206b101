import TsProject.Cli.Usage
import TsProject.Engine.Compiler
import TsProject.Pipeline.Action

/-!
# The command

The command compiles a project once. Messages for the host and log lines go to standard error in
the order in which they come up; the exit code says what went wrong.
-/

namespace TsProject.Cli

/-- What the command leaves behind. -/
structure Output where
  exitCode : Nat
  stdout : String := ""
  stderr : String := ""
  deriving DecidableEq, Repr

/-- The exit code for wrong arguments. -/
def usageExitCode : Nat := 2

/-- Lines as text. -/
def unlines (lines : List String) : String := String.join (lines.map (· ++ "\n"))

/-- The line of an event on standard error, if it is shown. -/
def eventLine? (format : LogFormat) (time : String) : Event → Option String
  | .log record => record.render? format time
  | .host false text => some text
  | .host true text => some (errorText text [])

/-- Runs the compile action for settled arguments. -/
def compile (args : Arguments) (process : ProcessStart → ProcessEnd) :
    Run (Except Failure Unit) := do
  let command ← match args.tsc with
    | none => pure []
    | some text =>
      if text = "" then pure [] else Run.ofExcept ((Text.words text).mapError .badCommand)
  let settings ← Run.ofExcept (EngineSettings.load (← Run.world) [])
  let compiler : Compiler := { command, settings, process }
  Run.log .debug "cli_invoked"
    [("project", .str args.project), ("file_count", .int args.files.length),
     ("option_count", .int args.overrides.length)]
  Action.resolve compiler.engine (.fields [])
    [("config_path", .str args.project),
     ("input_files", if args.files.isEmpty then .null else .arr (args.files.map .str)),
     ("output_location", CompileRequest.textOrNull args.outDir),
     ("option_overrides", .obj args.overrides)]

/-- What the command leaves behind after a run of the action. -/
def conclude (format : LogFormat) (time : String) (result : Except Failure Unit)
    (events : List Event) : Output :=
  let told := events.filterMap (eventLine? format time)
  match result with
  | .ok () => { exitCode := 0, stderr := unlines told }
  | .error failure =>
    let last := errorText failure.report [("stage", .str failure.kind.stage.text)]
    { exitCode := failure.kind.exitCode, stderr := unlines (told ++ [last]) }

/-- **The command** in a session. `time` is what log lines show as the time. -/
def run (argv : List String) (process : ProcessStart → ProcessEnd) (time : String)
    (s : Session) : Except Fault Output × Session :=
  match parse argv with
  | .error (.tooManyDigits n) => (.error (.tooManyDigits n), s)
  | .error (.usage e) => (.ok { exitCode := usageExitCode, stderr := unlines e.lines }, s)
  | .ok .version => (.ok { exitCode := 0, stdout := unlines [versionText] }, s)
  | .ok .help => (.ok { exitCode := 0, stdout := unlines helpLines }, s)
  | .ok (.compile args) =>
    match LogLevel.threshold args.logLevel with
    | .error e => (.error e, s)
    | .ok threshold =>
      match compile args process s with
      | (.error e, s) => (.error e, s)
      | (.ok result, s) => (.ok (conclude ⟨threshold, args.jsonLogs⟩ time result s.events), s)

end TsProject.Cli

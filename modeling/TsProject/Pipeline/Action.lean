import TsProject.Engine.Unit
import TsProject.Pipeline.Request

/-!
# The compile action

One invocation goes through a fixed sequence: the request is read, the configuration loaded, the
options merged, the unit compiled, the diagnostics collected. A failure on the way ends it before
the engine is asked. The host is told which configuration is compiled, and then either of the
success or of every problem, one message each.
-/

namespace TsProject

namespace Action

/-- A log record about a configuration. -/
def logAbout (configPath : String) (event : String) (fields : Fields) : Run Unit :=
  Run.log .debug event (("config_path", .str configPath) :: fields)

/-- The log records of loading a configuration. -/
def logLoad (path : String) : Except LoadError Config → Run Unit
  | .ok config => do
    logSelection config.selection
    logAbout path "tsconfig_loaded"
      [("layers", .int config.layerCount), ("option_count", .int config.options.length),
       ("input_file_count", .int config.inputFiles.length)]
  | .error (.unreadable f) =>
    logAbout path "tsconfig_read_failed" [("error", .str f.message)]
  | .error (.invalid _ cause) => do
    match cause with
    | .emptyFiles | .noInputs _ _ => logSelection ⟨[], []⟩
    | .problems _ | .badSpec _ => pure ()
    logAbout path "tsconfig_validation_failed"
      [("problem_count", .int (cause.messages path).length)]
where
  /-- The log record of selecting files. -/
  logSelection (s : Selection) : Run Unit :=
    Run.log .debug "input_files_selected"
      [("literal_count", .int s.literal.length), ("wildcard_count", .int s.found.length)]

/-- Loads a configuration and logs how it went. -/
def loadConfig (path : String) (requireInputs : Bool) : Run (Except LoadError Config) := do
  let loaded ← Run.ofExcept (Config.load (← Run.world) path requireInputs)
  let path := match loaded with
    | .ok config => config.path
    | .error e => e.path
  logLoad path loaded
  return loaded

/-- Merges options and logs how it went. -/
def mergeOptions (config : Config) (request : CompileRequest) :
    Run (Except OverrideError Fields) := do
  let merged := CompilerOptions.merge config.options request.overrides request.outputLocation
    (some config.baseDir)
  match merged with
  | .ok _ =>
    Run.log .debug "options_merged"
      [("base_count", .int config.options.length),
       ("override_count", .int request.overrides.length),
       ("output_location", CompileRequest.textOrNull request.outputLocation)]
  | .error e => Run.log .debug "override_rejected" [("key", .str e.key)]
  return merged

/-- The input files of a run: the caller's own list, or else the configured one. -/
def selectInputs (configured : List String) (own : Option (List String)) : List String :=
  own.getD configured

/-- Ends an invocation with a failure of an early stage. -/
def stageFailed (configPath : String) (failure : Failure) : Run (Except Failure Unit) := do
  Run.setResults { outcome := some "failure", errorKind := some failure.kind.text }
  logAbout configPath "typescript_stage_failed"
    [("stage", .str failure.kind.stage.text),
     ("stage_description", .str failure.kind.stage.description),
     ("error_kind", .str failure.kind.text)]
  Run.logError failure.format
  return .error failure

/-- A log record of a state that is reached. -/
def reached (configPath : String) (milestone : Milestone) : Run Unit :=
  logAbout configPath "typescript_pipeline_state" [("state", .str milestone.text)]

/-- Builds a unit, claims it and has it compiled. -/
def compile (engine : Engine) (config : Config) (options : Fields) (inputFiles : List String) :
    Run EmitResult := do
  let w ← Run.world
  let unit ← Run.ofExcept
    (CompilationUnit.make inputFiles options config.baseDir (some config.path) w.cwdText).claim
  Run.log .debug "compilation_unit_created"
    [("engine", .str engine.name), ("input_file_count", .int unit.inputFiles.length),
     ("option_count", .int unit.options.length)]
  engine.emit unit

/-- Collects the diagnostics of a compilation and tells the host. -/
def conclude (configPath : String) (result : EmitResult) : Run (Except Failure Unit) := do
  Run.setResults { preDiagnostics := some result.pre.length,
                   emitDiagnostics := some result.emit.length,
                   emittedFiles := some result.emitted.length }
  match Outcome.collect result.pre result.emit with
  | .success =>
    Run.setResults { outcome := some "success" }
    logAbout configPath "typescript_compilation_succeeded"
      [("emitted_files", .int result.emitted.length)]
    Run.logInfo "TypeScript compilation completed successfully."
    return .ok ()
  | .failure entries =>
    entries.forM fun entry => Run.logError entry.format
    let failure := Failure.compilationDiagnostics entries
    Run.setResults { outcome := some "failure", errorKind := some failure.kind.text }
    logAbout configPath "typescript_compilation_failed"
      [("diagnostic_count", .int entries.length)]
    return .error failure

/-- Compiles with a configuration that has been loaded. -/
def runLoaded (engine : Engine) (configPath : String) (request : CompileRequest)
    (config : Config) : Run (Except Failure Unit) := do
  reached configPath .loaded
  match ← mergeOptions config request with
  | .error e => stageFailed configPath (.ofOverrideError e)
  | .ok options =>
    reached configPath .merged
    let inputFiles := selectInputs config.inputFiles request.inputFiles
    Run.setResults { inputFiles := some inputFiles.length }
    Run.logInfo ("Compiling TypeScript using configuration: " ++ config.path)
    let result ← compile engine config options inputFiles
    reached configPath .compiled
    conclude configPath result

/-- Runs a request that has been read. -/
def runRequest (engine : Engine) (request : CompileRequest) : Run (Except Failure Unit) := do
  let configPath ← Run.ofExcept (Config.locate (← Run.world) request.configPath)
  Run.pipelineSpan configPath do
    match ← loadConfig configPath request.inputFiles.isNone with
    | .error e => stageFailed configPath (.ofLoadError e)
    | .ok config => runLoaded engine configPath request config

/-- **One invocation.** It answers with success or with the failure that ended it. -/
def resolve (engine : Engine) (input : CompileRequest.Input) (keywords : Fields) :
    Run (Except Failure Unit) := do
  match CompileRequest.coerce input keywords with
  | .error problems =>
    let failure := CompileRequest.failureOf problems
    Run.log .debug "typescript_request_invalid"
      [("error_kind", .str failure.kind.text), ("error_count", .int problems.length)]
    Run.logError failure.format
    return .error failure
  | .ok request => runRequest engine request

end Action

end TsProject

import TsProject.Diagnostic.Output
import TsProject.Engine.Project
import TsProject.Engine.Settings

/-!
# Running the compiler

The engine runs the compiler as a process. For each unit it writes a throw-away project file
next to the configuration, runs the compiler once and removes the file again, whatever happens:
also where writing it is broken off and the file has been begun.
Problems with running the compiler are reported as a diagnostic; a run that ends badly without
saying why gets one that does.

The command is the one given to the engine, else that of the settings, else the compiler
installed nearest above the configuration, else the one on the search path.
-/

namespace TsProject

/-- How a process ends. -/
inductive ProcessEnd where
  | notStarted (error : OsError)
  | finished (status : Int) (stdout stderr : List UInt8)
  deriving DecidableEq

/-- An engine that runs the compiler. -/
structure Compiler where
  /-- The command, where one is given. -/
  command : List String := []
  settings : EngineSettings
  /-- How each process that is started ends. -/
  process : ProcessStart → ProcessEnd
  /-- Where the system breaks off writing bytes to a path, if it does. -/
  disk : (path : String) → (bytes : List UInt8) → Option World.WriteStop := fun _ _ => none
  /-- The random part of the name of the project file. -/
  serial : String := "".pushn '0' 32
  /-- The compiler does not answer in time when it is asked for its version. -/
  slow : Bool := false

namespace Compiler

/-- The name of the compiler's executable. -/
def binary : String := "tsc"

/-- The compiler installed in a directory. -/
def installedIn (dir : String) : String :=
  Path.child (Path.child (Path.child dir "node_modules") ".bin") binary

/-- The compiler installed in the first of some directories that has one. -/
def installed? (w : World) : List String → Except Fault (Option String)
  | [] => .ok none
  | dir :: rest => do
    if ← (w.isFile (installedIn dir)).mapError Fault.os then return some (installedIn dir)
    else installed? w rest

/-- **The command** that runs the compiler for a configuration in `baseDir`. -/
def resolveCommand (c : Compiler) (w : World) (baseDir : String) :
    Except Fault (Option (List String)) := do
  if !c.command.isEmpty then return some c.command
  match ← c.settings.commandArgs with
  | some (first :: rest) => return some (first :: rest)
  | _ =>
    let found ← if c.settings.searchModules then
      installed? w (baseDir :: Path.ancestors baseDir) else pure none
    match found with
    | some path => return some [path]
    | none => return (w.which binary).map fun path => [path]

/-- A text without the word in front of a version. -/
def dropVersionWord (s : String) : String :=
  match Text.dropStart? "Version ".toList s.toList with
  | some rest => String.ofList (Text.trimChars rest)
  | none => String.ofList (Text.trimChars s.toList)

/-- **The version** that the compiler reports, if it reports one. -/
def version (c : Compiler) : Run (Option String) := do
  let w ← Run.world
  match ← Run.ofExcept (c.resolveCommand w w.cwdText) with
  | none => return none
  | some command =>
    Run.compilerSpan "version" none do
      let start : ProcessStart := { args := command ++ ["--version"] }
      Run.noteStart start
      match c.process start with
      | .notStarted e =>
        Run.log .debug "tsc_version_failed" [("error", .str e.message)]
        return none
      | .finished status stdout _ =>
        if c.slow then
          Run.log .debug "tsc_version_failed" [("error", .str "timed out")]
          return none
        let output := Text.trim (Utf8.decodeReplacing stdout)
        if status ≠ 0 || output = "" then return none
        let version := dropVersionWord output
        Run.setResults { compilerVersion := some version }
        return some version

/-- A diagnostic about running the compiler. -/
def runDiagnostic (text : String) : Diagnostic := { message := .plain text }

/-- The answer when the compiler cannot be run. -/
def failedRun (text : String) : EmitResult := { pre := [runDiagnostic text], skipped := true }

/-- The text for a compiler that is not found. -/
def notFoundText : String :=
  "TypeScript compiler 'tsc' was not found. Install the 'typescript' package or set " ++
    "KIST_TSC_COMMAND."

/-- The path of the throw-away project file. -/
def projectFile (c : Compiler) (baseDir : String) : String :=
  Path.child baseDir (".tsconfig.kist-" ++ c.serial ++ ".json")

/-- The bytes of the project file of a unit. -/
def projectBytes (w : World) (u : CompilationUnit) : List UInt8 :=
  Utf8.encode ((u.projectDocument w.cwdText).renderIndented 0)

/-- Writes the project file of a unit. -/
def writeProject (c : Compiler) (w : World) (u : CompilationUnit) :
    Except AccessError (World × Option OsCause) :=
  let file := c.projectFile u.baseDir
  w.write (c.disk file (projectBytes w u)) file (projectBytes w u)

/-- The arguments after the command. -/
def arguments (file : String) : List String :=
  ["--project", file, "--pretty", "false", "--listEmittedFiles"]

/-- The statuses with which the compiler ends of itself. -/
def ownStatuses : List Int := [0, 1, 2]

/-- What is reported of a run besides its output: that it ended badly, where the status is none
of the compiler's own or no diagnostic explains it. -/
def exitDiagnostics (status : Int) (output : Output) (stderr : List UInt8) :
    List Diagnostic :=
  let silent := output.pre.isEmpty && output.emit.isEmpty
  if !ownStatuses.contains status || (status ≠ 0 && silent) then
    let detail := Text.trim (Utf8.decodeReplacing stderr)
    let detail := if detail = "" then "\n".intercalate output.unparsed else detail
    [runDiagnostic ("TypeScript compiler exited with status " ++ toString status ++
      (if detail = "" then "." else ": " ++ detail))]
  else []

/-- The answer to a process that has finished. -/
def resultOf (status : Int) (output : Output) (stderr : List UInt8) : EmitResult where
  pre := output.pre ++ exitDiagnostics status output stderr
  emit := output.emit
  emitted := output.emitted
  skipped := output.emitted.isEmpty
  timed := true

/-- Removes a file in the world of the run. -/
def unlink (path : String) : Run Unit := do
  let w ← Run.world
  Run.setWorld (← Run.ofExcept ((w.unlink path).mapError AccessError.toFault))

/-- Starts the compiler on a project file that has been written. -/
def start (c : Compiler) (log : LogLevel → String → Fields → Run Unit) (command : List String)
    (u : CompilationUnit) (file : String) :
    Run (Except OsError (Int × List UInt8 × List UInt8)) := do
  log .debug "tsc_started"
    [("command", .arr (command.map .str)), ("input_file_count", .int u.inputFiles.length)]
  let start : ProcessStart :=
    { args := command ++ arguments file, cwd := some u.baseDir
      project := ((← Run.world).readBytes file).toOption }
  Run.noteStart start
  match c.process start with
  | .notStarted e =>
    log .warning "tsc_failed_to_start"
      [("command", .arr (command.map .str)), ("error", .str e.message)]
    return .error e
  | .finished status stdout stderr => return .ok (status, stdout, stderr)

/-- The answer when the project file cannot be written. -/
def failedWrite (file error : String) : EmitResult :=
  failedRun ("Cannot write project file '" ++ file ++ "': " ++ error)

/-- Gives up writing a project file, of which it removes what is there. -/
def giveUp (log : LogLevel → String → Fields → Run Unit) (file error : String) :
    Run EmitResult := do
  log .warning "tsc_project_file_failed" [("project_file", .str file), ("error", .str error)]
  unlink file
  return failedWrite file error

/-- Compiles a unit that has input files with a command that has been found. -/
def emitWith (c : Compiler) (log : LogLevel → String → Fields → Run Unit)
    (command : List String) (u : CompilationUnit) : Run EmitResult := do
  if let some name := u.oddOption? then throw (.oddOption name)
  let file := c.projectFile u.baseDir
  match c.writeProject (← Run.world) u with
  | .error .embeddedNull => throw .embeddedNull
  | .error (.refused e) => giveUp log file e.message
  | .ok (begun, some cause) =>
    Run.setWorld begun
    giveUp log file cause.message
  | .ok (written, none) =>
    Run.setWorld written
    match ← Run.ensuring (c.start log command u file) (unlink file) with
    | .error e =>
      return failedRun ("Cannot run TypeScript compiler '" ++ command.headD "" ++ "': " ++
        e.message)
    | .ok (status, stdout, stderr) =>
      let output ← Run.ofExcept (Output.parse (Utf8.decodeReplacing stdout) u.baseDir)
      let result := resultOf status output stderr
      Run.setResults { preDiagnostics := some result.pre.length,
                       emitDiagnostics := some result.emit.length,
                       emittedFiles := some result.emitted.length, elapsed := some .elapsed }
      log .debug "tsc_completed"
        [("returncode", .int status), ("pre_emit_diagnostics", .int result.pre.length),
         ("emit_diagnostics", .int result.emit.length),
         ("emitted_files", .int result.emitted.length)]
      return result

/-- **Compiling a unit.** A unit without input files is not given to the compiler. -/
def emit (c : Compiler) (u : CompilationUnit) : Run EmitResult := do
  let log (level : LogLevel) (event : String) (fields : Fields) : Run Unit :=
    Run.log level event ([("engine", .str binary), ("base_dir", .str u.baseDir)] ++ fields)
  Run.compilerSpan "emit" (some u.baseDir) do
    if u.inputFiles.isEmpty then
      log .debug "tsc_skipped_empty_unit" []
      Run.setResults { emittedFiles := some 0 }
      return { skipped := true }
    else
      match ← Run.ofExcept (c.resolveCommand (← Run.world) u.baseDir) with
      | none =>
        log .warning "tsc_not_found" []
        return failedRun notFoundText
      | some command => c.emitWith log command u

/-- The compiler as an engine. -/
def engine (c : Compiler) : Engine := ⟨binary, c.emit⟩

end Compiler

end TsProject

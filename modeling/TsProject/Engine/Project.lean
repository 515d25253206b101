import TsProject.Engine.Unit
import TsProject.Options.Check

/-!
# Project documents

The compiler is given a project file that holds the options of a unit and lists its files.
Paths in it are absolute, resolved against the working directory of the caller. Since the file is
thrown away, the place of the state of incremental builds is written out: it is where the compiler
would keep it for the configuration itself.
-/

namespace TsProject

namespace CompilationUnit

/-- An option that counts as set. -/
def isSet (options : Fields) (name : String) : Bool := (options.get? name).any Json.isTruthy

/-- The text of an option that counts as set. -/
def setText? (options : Fields) (name : String) : Option String :=
  match options.get? name with
  | some (.str s) => if s = "" then none else some s
  | _ => none

/-- The place of the incremental state without its extension: beside the output file, or in the
output directory where the configuration lies below the root directory, or in the output
directory, or beside the configuration. -/
def buildInfoStem (processCwd : String) (options : Fields) (configPath : String) : String :=
  match setText? options "outFile" with
  | some file => Path.stem file
  | none =>
    let stem := Path.stem configPath
    match setText? options "outDir", setText? options "rootDir" with
    | some out, some root => Path.resolve out (Path.relativeTo processCwd root stem)
    | some out, none => Path.join out (Path.baseName stem)
    | none, _ => stem

/-- Incremental state is kept. -/
def keepsState (options : Fields) : Bool :=
  isSet options "incremental" || isSet options "composite"

/-- **The place of the incremental state** of a configuration, where it is kept at all and not
set already. -/
def buildInfoPath (processCwd : String) (options : Fields) (configPath : String) :
    Option String :=
  if !keepsState options then none
  else if isSet options "tsBuildInfoFile" then none
  else some (buildInfoStem processCwd options configPath ++ ".tsbuildinfo")

/-- The options that decide the place of the incremental state. -/
def placeOptions (options : Fields) : List String :=
  if isSet options "outFile" then ["outFile"]
  else if isSet options "outDir" then ["rootDir", "outDir"]
  else []

/-- An option that decides the place of the incremental state and is set, but to no text. -/
def oddPlaceOption? (options : Fields) : Option String :=
  if !keepsState options || isSet options "tsBuildInfoFile" then none
  else (placeOptions options).find? fun name =>
    isSet options name && (setText? options name).isNone

/-- The options of the project document. -/
def projectOptions (processCwd : String) (u : CompilationUnit) : Fields :=
  let options := CompilerOptions.resolvePaths u.cwd u.options
  match buildInfoPath processCwd options u.configPath with
  | none => options
  | some path => options.set "tsBuildInfoFile" (.str path)

/-- **The project document** of a unit. -/
def projectDocument (processCwd : String) (u : CompilationUnit) : Json :=
  .obj [("compilerOptions", .obj (projectOptions processCwd u)),
    ("files", .arr (u.inputFiles.map fun f => .str (Path.resolve u.cwd f))),
    ("include", .arr [])]

/-- An option of a unit for which no project document can be made. -/
def oddOption? (u : CompilationUnit) : Option String :=
  CompilerOptions.oddPathList? u.options <|>
    oddPlaceOption? (CompilerOptions.resolvePaths u.cwd u.options)

end CompilationUnit

end TsProject

import TsProject.Diagnostic.Basic
import TsProject.Path
import TsProject.Run

/-!
# Compilation units and engines

A compilation unit binds a list of input files to a set of options. It is compiled once: claiming
it a second time is a fault. An engine is what compiles units; it answers with the diagnostics of
both phases and the files it has written.
-/

namespace TsProject

/-- What is to be compiled. -/
structure CompilationUnit where
  /-- The files, relative ones to `cwd`. -/
  inputFiles : List String
  options : Fields
  /-- The directory of the configuration. -/
  baseDir : String
  configPath : String
  /-- The working directory of the caller. -/
  cwd : String
  /-- The unit has been claimed. -/
  consumed : Bool := false

namespace CompilationUnit

/-- A unit for a caller in `cwd`; without a configuration it is the default one of `baseDir`. -/
def make (inputFiles : List String) (options : Fields) (baseDir : String)
    (configPath : Option String) (cwd : String) : CompilationUnit where
  inputFiles
  options
  baseDir
  configPath := configPath.getD (Path.child baseDir "tsconfig.json")
  cwd

/-- **Claiming** a unit, which works once. -/
def claim (u : CompilationUnit) : Except Fault CompilationUnit :=
  if u.consumed then .error .unitReused else .ok { u with consumed := true }

/-- A short description. -/
def describe (u : CompilationUnit) : String :=
  "CompilationUnit(input_files=" ++ toString u.inputFiles.length ++ ", options=" ++
    toString u.options.length ++ ", base_dir=" ++ Text.quoted u.baseDir ++ ")"

end CompilationUnit

/-- What an engine answers. -/
structure EmitResult where
  pre : List Diagnostic := []
  emit : List Diagnostic := []
  emitted : List String := []
  /-- Nothing was written. -/
  skipped : Bool := false
  /-- The time of the compilation was taken. -/
  timed : Bool := false

/-- What compiles units. -/
structure Engine where
  name : String
  emit : CompilationUnit → Run EmitResult

end TsProject

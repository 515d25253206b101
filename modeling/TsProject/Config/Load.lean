import TsProject.Config.Layer
import TsProject.Json.Printer
import TsProject.Selection.Select

/-!
# Loading configurations

The layers of a configuration are put on top of one another: an option, and each of the lists
`files`, `include` and `exclude` as a whole, comes from the last layer that declares it. Then
defaults are filled in and the input files are selected.

* Without `files` and `include`, everything below the directory of the configuration is
  included; without `exclude`, the package directories and the output directories are excluded.
* The targets of a path mapping are relative to the base URL where one is set; otherwise they are
  made absolute against the layer that declares the mapping.

`load` answers every configuration with a `Config` or a `LoadError`.
-/

namespace TsProject

/-- Why a configuration that can be read is invalid. -/
inductive InvalidCause where
  /-- The configuration or its bases have problems. -/
  | problems (found : List ConfigProblem)
  | badSpec (error : FileSpec.EndsInWildcard)
  /-- The list of files is empty and nothing is included. -/
  | emptyFiles
  /-- No file is selected. -/
  | noInputs (incl excl : List String)
  deriving DecidableEq, Repr

/-- Why a configuration cannot be loaded. -/
inductive LoadError where
  | unreadable (failure : ReadFailure)
  | invalid (path : String) (cause : InvalidCause)
  deriving DecidableEq, Repr

/-- Texts as a list of the data format. -/
def renderTexts (xs : List String) : String := Json.render (.arr (xs.map .str))

/-- The texts of the problems, one for each. -/
def InvalidCause.messages (path : String) : InvalidCause → List String
  | .problems found => found.map ConfigProblem.message
  | .badSpec e => [e.message]
  | .emptyFiles => ["The 'files' list in config file '" ++ path ++ "' is empty."]
  | .noInputs incl excl =>
    ["No inputs were found in config file '" ++ path ++ "'. Specified 'include' paths were '" ++
      renderTexts incl ++ "' and 'exclude' paths were '" ++ renderTexts excl ++ "'."]

/-- The text of the error. -/
def LoadError.message : LoadError → String
  | .unreadable f => f.message
  | .invalid path cause => "\n".intercalate (cause.messages path)

/-- The file that the error is about. -/
def LoadError.path : LoadError → String
  | .unreadable f => f.path
  | .invalid path _ => path

/-- A loaded configuration. -/
structure Config where
  path : String
  baseDir : String
  options : Fields
  selection : Selection
  files : Option (List String)
  incl : List String
  excl : List String
  /-- The number of files it was put together from. -/
  layerCount : Nat

/-- The input files. -/
def Config.inputFiles (c : Config) : List String := c.selection.files

/-- Layers put on top of one another. -/
structure Effective where
  options : Fields := []
  files : Option (List String) := none
  incl : Option (List String) := none
  excl : Option (List String) := none
  /-- The directory of the layer that the path mapping comes from. -/
  mappingDir : Option String := none

namespace Effective

/-- A layer put on top. -/
def put (e : Effective) (layer : Layer) : Effective where
  options := e.options.update layer.options
  files := layer.files <|> e.files
  incl := layer.incl <|> e.incl
  excl := layer.excl <|> e.excl
  mappingDir := if layer.options.has "paths" then some (Path.parent layer.path) else e.mappingDir

/-- Layers put on top of one another, the first at the bottom. -/
def ofLayers (layers : List Layer) : Effective := layers.foldl put {}

/-- **The options** with the targets of the path mapping made absolute where no base URL is
set. -/
def finalOptions (e : Effective) : Except Fault Fields :=
  match e.mappingDir with
  | none => .ok e.options
  | some dir =>
    if e.options.has "baseUrl" then .ok e.options
    else
      match e.options.get? "paths" with
      | some (.obj mapping) =>
        .ok (e.options.set "paths" (.obj (CompilerOptions.resolveMapping dir mapping)))
      | _ => .error .nullMapping

/-- The include specifications; everything below `baseDir` where neither they nor files are
declared. -/
def include? (e : Effective) (baseDir : String) : Option (List String) :=
  match e.files, e.incl with
  | none, none => some [Path.resolve baseDir "**/*"]
  | _, incl => incl

/-- The directories excluded where nothing is declared. -/
def implicitExclude (baseDir : String) (options : Fields) : List String :=
  packageDirs.map (Path.resolve baseDir) ++
    ["outDir", "declarationDir"].filterMap fun key =>
      ((options.get? key).bind Json.text?).map Path.normalize

/-- The exclude specifications. -/
def exclude (e : Effective) (baseDir : String) (options : Fields) : List String :=
  e.excl.getD (implicitExclude baseDir options)

end Effective

namespace Config

/-- Selects the input files of layers put together and finishes the configuration. -/
def finish (w : World) (path : String) (requireInputs : Bool) (layerCount : Nat)
    (e : Effective) : Except Fault (Except LoadError Config) := do
  let baseDir := Path.parent path
  let options ← e.finalOptions
  let incl := e.include? baseDir
  let specs := incl.getD []
  let excl := e.exclude baseDir options
  let allowScripts := match options.get? "allowJs" with
    | some (.bool true) => true
    | _ => false
  match Selection.select w e.files specs excl allowScripts with
  | .error (.badSpec error) => return .error (.invalid path (.badSpec error))
  | .error .embeddedNull => throw .embeddedNull
  | .ok selection =>
    if requireInputs && selection.files.isEmpty then
      let cause :=
        if e.files = some [] && incl = none then .emptyFiles else .noInputs specs excl
      return .error (.invalid path cause)
    else
      return .ok { path, baseDir, options, selection, files := e.files, incl := specs, excl,
                   layerCount }

/-- **Loading** the configuration that a caller's path means. Inputs are required unless the
caller brings its own. -/
def load (w : World) (path : String) (requireInputs : Bool) :
    Except Fault (Except LoadError Config) := do
  let path ← locate w path
  match ← readFile w path with
  | .error failure => return .error (.unreadable failure)
  | .ok fields =>
    let collected ← collect w path fields
    if collected.problems.isEmpty then
      finish w path requireInputs collected.layers.length (Effective.ofLayers collected.layers)
    else return .error (.invalid path (.problems collected.problems))

end Config

end TsProject

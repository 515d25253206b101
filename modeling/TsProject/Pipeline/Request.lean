import TsProject.Config.Document
import TsProject.Config.Extends
import TsProject.Failure

/-!
# Compile requests

A request says which configuration to use, which files to compile in place of the configured
ones, where output goes and which options to override. Each field may be spelt in three ways; the
first spelling that occurs counts. Null stands for a field that is not given, and other keys are
ignored. Keyword fields are put on top of the request by key.
-/

namespace TsProject

/-- What a caller wants. -/
structure CompileRequest where
  configPath : String := Config.defaultName
  inputFiles : Option (List String) := none
  outputLocation : Option String := none
  overrides : Fields := []
  /-- The keys of the fields that were given, in their first spelling. -/
  given : List String := []

namespace CompileRequest

/-- The spellings of the configuration. -/
def configKeys : List String := ["config_path", "configPath", "tsconfigPath"]

/-- The spellings of the input files. -/
def inputKeys : List String := ["input_files", "inputFiles", "filePaths"]

/-- The spellings of the output location. -/
def outputKeys : List String := ["output_location", "outputLocation", "outputDir"]

/-- The spellings of the overrides. -/
def overrideKeys : List String := ["option_overrides", "optionOverrides", "compilerOptions"]

/-- The first spelling that occurs, and its value. -/
def pick? (keys : List String) (fields : Fields) : Option (String × Json) :=
  keys.findSome? fun key => (fields.get? key).map (key, ·)

/-- The problems with the configuration. -/
def configProblems : Option (String × Json) → List FieldProblem
  | none | some (_, .null) => []
  | some (key, .str s) =>
    if s = "" then [⟨[key], "String should have at least 1 character"⟩] else []
  | some (key, _) => [⟨[key], Shape.text.message⟩]

/-- The problems with the input files. -/
def inputProblems : Option (String × Json) → List FieldProblem
  | none | some (_, .null) => []
  | some (key, .arr items) => items.zipIdx.filterMap fun (item, i) =>
    match item with
    | .str _ => none
    | _ => some ⟨[key, toString i], Shape.text.message⟩
  | some (key, _) => [⟨[key], "Input should be a valid tuple"⟩]

/-- The problems with the output location. -/
def outputProblems : Option (String × Json) → List FieldProblem
  | none | some (_, .null) | some (_, .str _) => []
  | some (key, _) => [⟨[key], Shape.text.message⟩]

/-- The problems with the overrides. -/
def overrideProblems : Option (String × Json) → List FieldProblem
  | none | some (_, .null) | some (_, .obj _) => []
  | some (key, _) => [⟨[key], Shape.object.message⟩]

/-- All problems with the fields of a request. -/
def problems (fields : Fields) : List FieldProblem :=
  configProblems (pick? configKeys fields) ++ inputProblems (pick? inputKeys fields) ++
    outputProblems (pick? outputKeys fields) ++ overrideProblems (pick? overrideKeys fields)

/-- The first spellings of the fields that occur in any spelling. -/
def givenKeys (fields : Fields) : List String :=
  [configKeys, inputKeys, outputKeys, overrideKeys].filterMap fun keys =>
    if (pick? keys fields).isSome then keys.head? else none

/-- **Reading a request**, or what is wrong with its fields. -/
def ofFields (fields : Fields) : Except (List FieldProblem) CompileRequest :=
  match problems fields with
  | [] => .ok {
      configPath := ((pick? configKeys fields).bind (·.2.text?)).getD Config.defaultName
      inputFiles := (pick? inputKeys fields).bind (Document.texts? ·.2)
      outputLocation := (pick? outputKeys fields).bind (·.2.text?)
      overrides := ((pick? overrideKeys fields).bind (Document.members? ·.2)).getD []
      given := givenKeys fields }
  | found => .error found

/-- A text, or null for nothing. -/
def textOrNull (s : Option String) : Json := (s.map Json.str).getD .null

/-- The fields that were given, in their first spelling. -/
def toFields (r : CompileRequest) : Fields :=
  [("config_path", .str r.configPath),
   ("input_files", (r.inputFiles.map fun fs => .arr (fs.map .str)).getD .null),
   ("output_location", textOrNull r.outputLocation),
   ("option_overrides", .obj r.overrides)].filter fun kv => r.given.contains kv.1

/-- What a caller passes: fields, or a request made before. -/
inductive Input where
  | fields (fields : Fields)
  | request (request : CompileRequest)

/-- **The request of a caller** who passes `input` and keyword fields. -/
def coerce (input : Input) (keywords : Fields) : Except (List FieldProblem) CompileRequest :=
  match input with
  | .fields fields => ofFields (fields.update keywords)
  | .request r => if keywords.isEmpty then .ok r else ofFields (r.toFields.update keywords)

/-- The failure of a request with problems, told by the first one. -/
def failureOf (problems : List FieldProblem) : Failure :=
  let place := (problems.head?.bind (·.place.head?)).getD "request"
  let message := (problems.head?.map (·.message)).getD ""
  if overrideKeys.contains place then .invalidOverride place message
  else
    .configValidation ("Invalid compile request field '" ++ place ++ "': " ++ message) none

end CompileRequest

end TsProject

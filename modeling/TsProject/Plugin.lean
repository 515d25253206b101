import TsProject.Fault
import TsProject.Json.Basic
import TsProject.Text.Digit

/-!
# Plugin metadata

What a host is told about the plugin and the actions it contributes. Metadata are read from
fields strictly: the texts are required, a version begins with three numbers, keywords are a list
of texts, and nothing else may be given.
-/

namespace TsProject

/-- The metadata of a plugin. -/
structure PluginInfo where
  name : String
  version : String
  description : String
  author : String
  repository : String
  keywords : List String := []
  deriving DecidableEq, Repr

namespace PluginInfo

/-- The metadata of this plugin. -/
def this : PluginInfo where
  name := "kist-action-typescript"
  version := "1.0.0"
  description := "TypeScript compilation actions for kist"
  author := "kist"
  repository := "https://github.com/getkist/action-typescript"
  keywords := ["kist", "kist-action", "typescript", "compiler", "tsc"]

/-- The names of the actions that the plugin contributes. -/
def actions : List String := ["TypeScriptCompilerAction"]

/-- What the action does. -/
def actionDescription : String :=
  "Compiles TypeScript files using a given tsconfig.json configuration."

/-- The keys of the texts, in order. -/
def textKeys : List String := ["name", "version", "description", "author", "repository"]

/-- Drops a run of digits, which must not be empty. -/
def dropNumber (cs : List Char) : Option (List Char) :=
  match cs.dropWhile Text.isDecimal with
  | rest => if rest.length = cs.length then none else some rest

/-- Drops a point. -/
def dropPoint : List Char → Option (List Char)
  | '.' :: rest => some rest
  | _ => none

/-- The text begins with three numbers separated by points. -/
def isVersion (s : String) : Bool :=
  (do dropNumber (← dropPoint (← dropNumber (← dropPoint (← dropNumber s.toList))))).isSome

/-- The problems with a text. -/
def textProblems (fields : Fields) (key : String) : List FieldProblem :=
  match fields.get? key with
  | none => [⟨[key], "Field required"⟩]
  | some (.str s) =>
    if key = "version" && !isVersion s then
      [⟨[key], "String should match pattern '^\\d+\\.\\d+\\.\\d+'"⟩]
    else []
  | some _ => [⟨[key], "Input should be a valid string"⟩]

/-- The problems with the keywords. -/
def keywordProblems (fields : Fields) : List FieldProblem :=
  match fields.get? "keywords" with
  | none => []
  | some (.arr items) => items.zipIdx.filterMap fun (item, i) =>
    match item with
    | .str _ => none
    | _ => some ⟨["keywords", toString i], "Input should be a valid string"⟩
  | some _ => [⟨["keywords"], "Input should be a valid tuple"⟩]

/-- The problems with keys that mean nothing. -/
def extraProblems (fields : Fields) : List FieldProblem :=
  (fields.keys.filter fun key => !(textKeys ++ ["keywords"]).contains key).map fun key =>
    ⟨[key], "Extra inputs are not permitted"⟩

/-- **Reading metadata**, or what is wrong with their fields. -/
def ofFields (fields : Fields) : Except Fault PluginInfo :=
  let text (key : String) : String := ((fields.get? key).bind Json.text?).getD ""
  match textKeys.flatMap (textProblems fields) ++ keywordProblems fields ++
      extraProblems fields with
  | [] => .ok {
      name := text "name", version := text "version", description := text "description"
      author := text "author", repository := text "repository"
      keywords := match fields.get? "keywords" with
        | some (.arr items) => items.filterMap Json.text?
        | _ => [] }
  | found => .error (.badFields found)

end PluginInfo

end TsProject

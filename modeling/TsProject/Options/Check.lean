import TsProject.Options.Suggest
import TsProject.Path

/-!
# Checking options

Options are checked against the table, strictly: a value of the wrong kind is a problem, and so
is a key that is no option. Null is accepted everywhere and kept. What is accepted comes back in
table order, names of a choice and the items of a lower-cased list in lower case and everything
else as it is.

Problems are reported in table order, unknown keys after them in the order given; inside a list
or mapping they come in item order.
-/

namespace TsProject

/-- The kind of value missed at a place. -/
inductive Expected where
  | boolean
  | number
  | text
  | list
  | object
  deriving DecidableEq, Repr

/-- What a place of an option's value must hold, as the compiler words it. -/
def Expected.typeName : Expected → String
  | .boolean => "boolean"
  | .number => "number"
  | .text => "string"
  | .list => "list"
  | .object => "object"

/-- What an item inside an option's value should be. -/
def Expected.message : Expected → String
  | .boolean => "Input should be a valid boolean"
  | .number => "Input should be a valid integer"
  | .text => "Input should be a valid string"
  | .list => "Input should be a valid list"
  | .object => "Input should be a valid dictionary"

/-- What is wrong with an option. -/
inductive OptionFault where
  /-- There is no such option. -/
  | unknown
  /-- The value is none of the names. -/
  | notAmong (names : List String)
  /-- The value at a place, given by the keys and indices that lead to it, is of the wrong kind. -/
  | wrongKind (expected : Expected) (place : List String)
  deriving DecidableEq, Repr

/-- A problem with the option of a key. -/
structure OptionProblem where
  key : String
  fault : OptionFault
  deriving DecidableEq, Repr

/-- Names in apostrophes, the last two joined by "or". -/
def listAlternatives : List String → String
  | [] => ""
  | [a] => "'" ++ a ++ "'"
  | [a, b] => "'" ++ a ++ "' or '" ++ b ++ "'"
  | a :: rest => "'" ++ a ++ "', " ++ listAlternatives rest

/-- The text of the problem. -/
def OptionProblem.message (p : OptionProblem) : String :=
  match p.fault with
  | .unknown =>
    let base := "Unknown compiler option '" ++ p.key ++ "'."
    match OptionSpec.suggest? p.key with
    | some name => base ++ " Did you mean '" ++ name ++ "'?"
    | none => base
  | .notAmong names =>
    "Argument for '--" ++ p.key ++ "' option must be: " ++ listAlternatives names ++ "."
  | .wrongKind expected [] =>
    "Compiler option '" ++ p.key ++ "' requires a value of type " ++ expected.typeName ++ "."
  | .wrongKind expected place =>
    "Compiler option '" ++ ".".intercalate (p.key :: place) ++ "': " ++ expected.message

namespace OptionKind

/-- What is wrong with the items of a list of texts that is found at a place. -/
def textFaults (place : List String) (items : List Json) : List OptionFault :=
  (items.zipIdx).filterMap fun (item, i) =>
    match item with
    | .str _ => none
    | _ => some (.wrongKind .text (place ++ [toString i]))

/-- What is wrong with the lists of a mapping. -/
def mappingFaults (members : Fields) : List OptionFault :=
  members.flatMap fun (pattern, value) =>
    match value with
    | .arr items => textFaults [pattern] items
    | _ => [.wrongKind .list [pattern]]

/-- What is wrong with the items of a list of objects. -/
def objectFaults (items : List Json) : List OptionFault :=
  (items.zipIdx).filterMap fun (item, i) =>
    match item with
    | .obj _ => none
    | _ => some (.wrongKind .object [toString i])

/-- A text in lower case; anything else as it is. -/
def lowerText : Json → Json
  | .str s => .str (Text.lower s)
  | v => v

/-- The value with names and lower-cased lists in lower case. -/
def settle : OptionKind → Json → Json
  | .choice _, v => lowerText v
  | .loweredTexts, .arr items => .arr (items.map lowerText)
  | _, v => v

/-- **What is wrong** with a settled value of a kind. -/
def faults : OptionKind → Json → List OptionFault
  | _, .null => []
  | .boolean, .bool _ => []
  | .boolean, _ => [.wrongKind .boolean []]
  | .number, .int _ => []
  | .number, _ => [.wrongKind .number []]
  | .text, .str _ => []
  | .text, _ => [.wrongKind .text []]
  | .choice names, .str s => if names.contains s then [] else [.notAmong names]
  | .choice names, _ => [.notAmong names]
  | .texts, .arr items => textFaults [] items
  | .texts, _ => [.wrongKind .list []]
  | .loweredTexts, .arr items => textFaults [] items
  | .loweredTexts, _ => [.wrongKind .list []]
  | .mapping, .obj members => mappingFaults members
  | .mapping, _ => [.wrongKind .object []]
  | .objects, .arr items => objectFaults items
  | .objects, _ => [.wrongKind .list []]

end OptionKind

namespace CompilerOptions

/-- The fields that are options, settled and in table order. -/
def settle (raw : Fields) : Fields :=
  OptionSpec.all.filterMap fun spec =>
    (raw.get? spec.name).map fun v => (spec.name, spec.kind.settle v)

/-- The problems with the fields that are options. -/
def valueProblems (raw : Fields) : List OptionProblem :=
  OptionSpec.all.flatMap fun spec =>
    match raw.get? spec.name with
    | none => []
    | some v => (spec.kind.faults (spec.kind.settle v)).map (⟨spec.name, ·⟩)

/-- The problems with the fields that are no options. -/
def unknownProblems (raw : Fields) : List OptionProblem :=
  (raw.keys.filter fun key => (OptionSpec.find? key).isNone).map (⟨·, .unknown⟩)

/-- All problems with a set of options. -/
def problems (raw : Fields) : List OptionProblem := valueProblems raw ++ unknownProblems raw

/-- **Checking**: the settled options, or what is wrong with them. -/
def check (raw : Fields) : Except (List OptionProblem) Fields :=
  match problems raw with
  | [] => .ok (settle raw)
  | found => .error found

/-- A path value made absolute against a directory. -/
def resolveValue (base : String) (name : String) (v : Json) : Json :=
  match v with
  | .str s => if OptionSpec.pathNames.contains name then .str (Path.resolve base s) else v
  | .arr items =>
    if OptionSpec.pathListNames.contains name then
      .arr (items.map fun item =>
        match item with
        | .str s => .str (Path.resolve base s)
        | other => other)
    else v
  | _ => v

/-- **Path options made absolute** against a directory. -/
def resolvePaths (base : String) (options : Fields) : Fields :=
  options.map fun (name, v) => (name, resolveValue base name v)

/-- An option with a list of paths some of which are no texts. -/
def oddPathList? (options : Fields) : Option String :=
  (options.find? fun (name, v) =>
    match v with
    | .arr items => OptionSpec.pathListNames.contains name && items.any (·.text?.isNone)
    | _ => false).map (·.1)

/-- The targets of a mapping made absolute against a directory. -/
def resolveMapping (base : String) (mapping : Fields) : Fields :=
  mapping.map fun (pattern, targets) =>
    (pattern, match targets with
      | .arr items => .arr (items.map fun item =>
        match item with
        | .str s => .str (Path.resolve base s)
        | other => other)
      | other => other)

/-- Options checked and, where a directory is given, with their paths made absolute. -/
def load (base? : Option String) (raw : Fields) : Except (List OptionProblem) Fields :=
  (check raw).map fun options =>
    match base? with
    | none => options
    | some base => resolvePaths base options

end CompilerOptions

end TsProject

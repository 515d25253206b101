import TsProject.Json.Basic

/-!
# Configuration documents

The shape of one configuration file. Keys that are not known are ignored; a known one has to
hold a value of its shape, or null for nothing. A single base may be given as a text instead of a
list of one. The compiler options are taken as they are, to be checked against their own table.
-/

namespace TsProject

/-- What a place of a document should hold. -/
inductive Shape where
  | text
  | list
  | object
  | reference
  | required
  | truth
  | readableTruth
  deriving DecidableEq, Repr

/-- The text of a problem with the shape of a value. -/
def Shape.message : Shape → String
  | .text => "Input should be a valid string"
  | .list => "Input should be a valid list"
  | .object => "Input should be a valid dictionary"
  | .reference => "Input should be a valid dictionary or instance of ProjectReference"
  | .required => "Field required"
  | .truth => "Input should be a valid boolean"
  | .readableTruth => "Input should be a valid boolean, unable to interpret input"

/-- A place of a document, given by the keys and indices that lead to it, and what it should
hold. -/
structure ShapeProblem where
  place : List String
  expected : Shape
  deriving DecidableEq, Repr

/-- Letters of the basic alphabet in lower case. -/
def asciiLower (s : String) : String := s.map Char.toLower

/-- The spellings of true and of false, in any case. -/
def truthWord? (s : String) : Option Bool :=
  let s := asciiLower s
  if ["1", "t", "y", "on", "yes", "true"].contains s then some true
  else if ["0", "f", "n", "no", "off", "false"].contains s then some false
  else none

/-- Whole numbers of at most 64 bits lie below it, and not below its negative. -/
def wordLimit : Int := 9223372036854775808

/-- **Reading a truth value** leniently: one and zero and the usual words count. -/
def readTruth : Json → Except Shape Bool
  | .bool b => .ok b
  | .int 0 => .ok false
  | .int 1 => .ok true
  | .int n => if -wordLimit ≤ n && n < wordLimit then .error .readableTruth else .error .truth
  | .real x =>
    if x.isZero then .ok false
    else if x.isOne then .ok true
    else if x.isIntegral && x.isSmall then .error .readableTruth
    else .error .truth
  | .str s =>
    match truthWord? s with
    | some b => .ok b
    | none => .error .readableTruth
  | _ => .error .truth

/-- One configuration file. -/
structure Document where
  compilerOptions : Option Fields := none
  files : Option (List String) := none
  incl : Option (List String) := none
  excl : Option (List String) := none
  bases : Option (List String) := none

namespace Document

/-- The problems with a value that should be a text. -/
def textProblems (place : List String) : Json → List ShapeProblem
  | .str _ => []
  | _ => [⟨place, .text⟩]

/-- The problems with a value that should be a list of texts or null. -/
def textsProblems (key : String) : Json → List ShapeProblem
  | .null => []
  | .arr items => items.zipIdx.flatMap fun (item, i) => textProblems [key, toString i] item
  | _ => [⟨[key], .list⟩]

/-- The problems with a value that should be an object or null. -/
def objectProblems (key : String) : Json → List ShapeProblem
  | .null => []
  | .obj _ => []
  | _ => [⟨[key], .object⟩]

/-- The problems with a project reference. -/
def referenceProblems (place : List String) : Json → List ShapeProblem
  | .obj members =>
    (match Fields.get? "path" members with
      | none => [⟨place ++ ["path"], .required⟩]
      | some v => textProblems (place ++ ["path"]) v) ++
    (match Fields.get? "prepend" members with
      | none | some .null => []
      | some v =>
        match readTruth v with
        | .ok _ => []
        | .error shape => [⟨place ++ ["prepend"], shape⟩])
  | _ => [⟨place, .reference⟩]

/-- The problems with a value that should be a list of project references or null. -/
def referencesProblems (key : String) : Json → List ShapeProblem
  | .null => []
  | .arr items => items.zipIdx.flatMap fun (item, i) => referenceProblems [key, toString i] item
  | _ => [⟨[key], .list⟩]

/-- The texts of a list, nothing for null. -/
def texts? : Json → Option (List String)
  | .arr items => some (items.filterMap Json.text?)
  | _ => none

/-- A single text made a list of one. -/
def listOfOne : Json → Json
  | .str s => .arr [.str s]
  | v => v

/-- The key under which the compiler options are found: the usual spelling first. -/
def optionsKey (fields : Fields) : String :=
  if fields.has "compilerOptions" then "compilerOptions" else "compiler_options"

/-- The value of a key, null when it is missing. -/
def valueOf (fields : Fields) (key : String) : Json := (fields.get? key).getD .null

/-- The problems with the shape of a document, in the order of its parts. -/
def problems (fields : Fields) : List ShapeProblem :=
  objectProblems (optionsKey fields) (valueOf fields (optionsKey fields)) ++
    textsProblems "files" (valueOf fields "files") ++
    textsProblems "include" (valueOf fields "include") ++
    textsProblems "exclude" (valueOf fields "exclude") ++
    textsProblems "extends" (listOfOne (valueOf fields "extends")) ++
    referencesProblems "references" (valueOf fields "references")

/-- The members of an object, nothing for null. -/
def members? : Json → Option Fields
  | .obj members => some members
  | _ => none

/-- **Reading a document**, or what is wrong with its shape. -/
def ofFields (fields : Fields) : Except (List ShapeProblem) Document :=
  match problems fields with
  | [] => .ok {
      compilerOptions := members? (valueOf fields (optionsKey fields))
      files := texts? (valueOf fields "files")
      incl := texts? (valueOf fields "include")
      excl := texts? (valueOf fields "exclude")
      bases := texts? (listOfOne (valueOf fields "extends")) }
  | found => .error found

end Document

end TsProject

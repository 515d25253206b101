import TsProject.Fault
import TsProject.Json.Comments
import TsProject.Path

/-!
# Reading configuration files

A file is read as text and as data with comments, and has to hold an object. What goes wrong is
the outcome of reading; only a path that is no path and a number that is too long are faults.
-/

namespace TsProject

/-- Why a configuration file cannot be read. -/
inductive ReadCause where
  | missing
  | refused (error : OsError)
  | decoding (error : Utf8.DecodeError)
  | badSyntax (kind : Json.SyntaxErrorKind) (line column : Nat)
  | notAnObject
  deriving DecidableEq, Repr

/-- A configuration file that cannot be read. -/
structure ReadFailure where
  path : String
  cause : ReadCause
  deriving DecidableEq, Repr

/-- The text of the failure. -/
def ReadFailure.message (f : ReadFailure) : String :=
  match f.cause with
  | .missing => "Cannot read file '" ++ f.path ++ "'."
  | .refused e => "Cannot read file '" ++ f.path ++ "': " ++ e.message
  | .decoding e => "Cannot read file '" ++ f.path ++ "': " ++ e.message
  | .badSyntax kind line column =>
    "Invalid JSON in '" ++ f.path ++ "' at line " ++ toString line ++ ", column " ++
      toString column ++ ": " ++ kind.message
  | .notAnObject =>
    "The root value of a '" ++ Path.name f.path ++ "' file must be an object."

namespace Config

/-- The data of a text, whose line and column an error names. -/
def parseText (path text : String) : Except Fault (Except ReadFailure Fields) :=
  match Json.readRelaxed text with
  | .ok (.obj members) => .ok (.ok members)
  | .ok _ => .ok (.error ⟨path, .notAnObject⟩)
  | .error (.tooManyDigits n) => .error (.tooManyDigits n)
  | .error (.badSyntax e) =>
    let (line, column) :=
      Json.lineAndColumn (Json.stripChars (Json.dropMarks text.toList)) e.position
    .ok (.error ⟨path, .badSyntax e.kind line column⟩)

/-- **Reading** a configuration file. -/
def readFile (w : World) (path : String) : Except Fault (Except ReadFailure Fields) :=
  match w.readText path with
  | .ok text => parseText path text
  | .error (.access .embeddedNull) => .error .embeddedNull
  | .error (.access (.refused e)) =>
    if e.cause = .noSuchFile then .ok (.error ⟨path, .missing⟩)
    else .ok (.error ⟨path, .refused e⟩)
  | .error (.decoding e) => .ok (.error ⟨path, .decoding e⟩)

end Config

end TsProject

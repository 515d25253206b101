import TsProject.Json.Parser
import TsProject.Text.Words
import TsProject.World.Access

/-!
# Faults

A fault ends a run from inside. It is no answer of the program but says that one of its inputs
lies outside of what the program knows how to report.
-/

namespace TsProject

/-- A problem with a named field of a settings or metadata record. -/
structure FieldProblem where
  place : List String
  message : String
  deriving DecidableEq, Repr

/-- The text of the problem. -/
def FieldProblem.text (p : FieldProblem) : String :=
  ".".intercalate p.place ++ ": " ++ p.message

/-- What ends a run from inside. -/
inductive Fault where
  /-- The system refuses an operation in a way that is not reported as an outcome. -/
  | os (error : OsError)
  /-- A path holds a null character. -/
  | embeddedNull
  /-- A whole number has more digits than are read. -/
  | tooManyDigits (digits : Nat)
  /-- A home directory is asked for and not known. -/
  | noHome
  /-- The path mapping that is to be resolved is null. -/
  | nullMapping
  /-- An option that has to hold paths holds something else. -/
  | oddOption (name : String)
  /-- A command line cannot be cut into words. -/
  | badCommand (error : Text.WordsError)
  /-- A record is malformed. -/
  | badFields (problems : List FieldProblem)
  /-- A log level is not known. -/
  | unknownLevel (name : String)
  /-- A compilation unit is used a second time. -/
  | unitReused
  /-- An engine gives up. -/
  | engine (text : String)
  deriving DecidableEq, Repr

/-- The text of the fault. -/
def Fault.message : Fault → String
  | .os e => e.message
  | .embeddedNull => "embedded null byte"
  | .tooManyDigits n =>
    "Exceeds the limit (4300 digits) for integer string conversion: value has " ++ toString n ++
      " digits; use sys.set_int_max_str_digits() to increase the limit"
  | .noHome => "Could not determine home directory."
  | .nullMapping => "'NoneType' object has no attribute 'items'"
  | .oddOption name => "option '" ++ name ++ "' holds no path"
  | .badCommand e => e.message
  | .badFields ps => "\n".intercalate (ps.map FieldProblem.text)
  | .unknownLevel name => "Unknown log level: " ++ name
  | .unitReused => "Compilation unit has already been emitted"
  | .engine text => text

/-- A path that is not accessible, as a fault. -/
def AccessError.toFault : AccessError → Fault
  | .refused e => .os e
  | .embeddedNull => .embeddedNull

end TsProject

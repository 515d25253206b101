import TsProject.Config.Document
import TsProject.Fault
import TsProject.Text.Blank
import TsProject.Text.Lower

/-!
# Settings of the compiler engine

The environment says which command runs the compiler and whether it is looked for among
installed packages. Variable names are matched in any case; values given explicitly beat the
environment.
-/

namespace TsProject

/-- How the compiler is found. -/
structure EngineSettings where
  command : Option String := none
  searchModules : Bool := true
  deriving DecidableEq, Repr

namespace EngineSettings

/-- The variable of a setting. -/
def variableOf (name : String) : String := "kist_tsc_" ++ name

/-- The value of a setting: the explicit one, or that of the last variable of its name. -/
def source? (w : World) (explicit : Fields) (name : String) : Option Json :=
  match explicit.get? name with
  | some v => some v
  | none =>
    (w.env.reverse.find? fun kv => Text.lower kv.1 = variableOf name).map fun kv => .str kv.2

/-- The command that a value gives. -/
def readCommand : Option Json → Except FieldProblem (Option String)
  | none | some .null => .ok none
  | some (.str s) => .ok (some s)
  | some _ => .error ⟨["command"], Shape.text.message⟩

/-- The truth value that a value gives. -/
def readSearch : Option Json → Except FieldProblem Bool
  | none => .ok true
  | some v => (readTruth v).mapError fun shape => ⟨["search_node_modules"], shape.message⟩

/-- **The settings** of an environment and explicit values. -/
def load (w : World) (explicit : Fields) : Except Fault EngineSettings :=
  match readCommand (source? w explicit "command"),
      readSearch (source? w explicit "search_node_modules") with
  | .ok command, .ok searchModules => .ok { command, searchModules }
  | .error p, .ok _ => .error (.badFields [p])
  | .ok _, .error p => .error (.badFields [p])
  | .error p, .error q => .error (.badFields [p, q])

/-- The words of the command, nothing when it is missing or blank. -/
def commandArgs (s : EngineSettings) : Except Fault (Option (List String)) :=
  match s.command with
  | none => .ok none
  | some command =>
    if Text.isBlankText command then .ok none
    else ((Text.words command).mapError .badCommand).map some

end EngineSettings

end TsProject

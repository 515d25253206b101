import TsProject.Config.Load
import TsProject.Diagnostic.Entry
import TsProject.Merge

/-!
# Failures

What a run answers when it does not succeed: the configuration cannot be read or is invalid, an
override is rejected, or the compiler reports diagnostics. Each kind belongs to a stage of the
run and has an exit code of its own.
-/

namespace TsProject

/-- The stages of a run. -/
inductive Stage where
  | load
  | merge
  | compile
  | collect
  deriving DecidableEq, Repr

/-- The word for a stage. -/
def Stage.text : Stage → String
  | .load => "LOAD"
  | .merge => "MERGE"
  | .compile => "COMPILE"
  | .collect => "COLLECT"

/-- What happens in a stage. -/
def Stage.description : Stage → String
  | .load => "Read and validate tsconfig.json"
  | .merge => "Merge compiler option overrides"
  | .compile => "Compile and emit artifacts"
  | .collect => "Collect compilation diagnostics"

/-- The states that a successful run passes through. -/
inductive Milestone where
  | loaded
  | merged
  | compiled
  deriving DecidableEq, Repr

/-- The word for a state. -/
def Milestone.text : Milestone → String
  | .loaded => "LOADED"
  | .merged => "MERGED"
  | .compiled => "COMPILED"

/-- The kinds of failure. -/
inductive FailureKind where
  | configRead
  | configValidation
  | invalidOverride
  | compilationDiagnostics
  deriving DecidableEq, Repr

namespace FailureKind

/-- All kinds. -/
def all : List FailureKind :=
  [.configRead, .configValidation, .invalidOverride, .compilationDiagnostics]

/-- The word for a kind. -/
def text : FailureKind → String
  | .configRead => "config_read"
  | .configValidation => "config_validation"
  | .invalidOverride => "invalid_override"
  | .compilationDiagnostics => "compilation_diagnostics"

/-- The stage that a kind belongs to. -/
def stage : FailureKind → Stage
  | .configRead => .load
  | .configValidation => .load
  | .invalidOverride => .merge
  | .compilationDiagnostics => .collect

/-- The exit code of a kind. -/
def exitCode : FailureKind → Nat
  | .configRead => 3
  | .configValidation => 5
  | .invalidOverride => 5
  | .compilationDiagnostics => 7

end FailureKind

/-- Why a run does not succeed. -/
inductive Failure where
  | configRead (message : String) (path : Option String)
  | configValidation (message : String) (path : Option String)
  | invalidOverride (key message : String)
  | compilationDiagnostics (entries : List Entry)
  deriving DecidableEq, Repr

namespace Failure

/-- The kind of a failure. -/
def kind : Failure → FailureKind
  | .configRead _ _ => .configRead
  | .configValidation _ _ => .configValidation
  | .invalidOverride _ _ => .invalidOverride
  | .compilationDiagnostics _ => .compilationDiagnostics

/-- The text of a failure. -/
def message : Failure → String
  | .configRead message _ => message
  | .configValidation message _ => message
  | .invalidOverride _ message => message
  | .compilationDiagnostics entries => aggregate entries

/-- The name of the configuration file that a failure is about. -/
def fileName : Option String → String
  | none => Config.defaultName
  | some path => if path = "" then Config.defaultName else Path.name path

/-- **The line of a failure** as the caller sees it. -/
def format : Failure → String
  | .configRead message path => "Error reading " ++ fileName path ++ ": " ++ message
  | .configValidation message path => "Error parsing " ++ fileName path ++ ": " ++ message
  | .invalidOverride key message =>
    "Invalid compiler option override '" ++ key ++ "': " ++ message
  | .compilationDiagnostics entries => aggregate entries

/-- The text that a caller gets who wants a run to succeed. -/
def report (f : Failure) : String := "TypeScript compilation failed: " ++ f.format

/-- The failure of a configuration that cannot be loaded. -/
def ofLoadError (e : LoadError) : Failure :=
  match e with
  | .unreadable _ => .configRead e.message (some e.path)
  | .invalid _ _ => .configValidation e.message (some e.path)

/-- The failure of overrides that are rejected. -/
def ofOverrideError (e : OverrideError) : Failure := .invalidOverride e.key e.message

end Failure

end TsProject

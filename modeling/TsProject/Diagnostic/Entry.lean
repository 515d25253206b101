import TsProject.Diagnostic.Basic

/-!
# Entries and outcomes

An entry is a diagnostic on its way to the user: its message is flattened, and it says in which
phase it was found. `collect` turns the diagnostics of both phases into the outcome of a run,
those of the analysis first. A run without diagnostics is a success.
-/

namespace TsProject

/-- When a diagnostic is found: during the analysis or while output is written. -/
inductive Phase where
  | preEmit
  | emit
  deriving DecidableEq, Repr

/-- The word for a phase. -/
def Phase.text : Phase → String
  | .preEmit => "pre-emit"
  | .emit => "emit"

/-- A phase by its word. -/
def Phase.ofText? (s : String) : Option Phase := [Phase.preEmit, .emit].find? (·.text = s)

/-- A reported problem. -/
structure Entry where
  message : String
  phase : Phase
  category : Category := .error
  code : Option Int := none
  file : Option String := none
  line : Option Int := none
  column : Option Int := none
  deriving DecidableEq, Repr

namespace Entry

/-- The entry of a diagnostic. -/
def ofDiagnostic (phase : Phase) (d : Diagnostic) : Entry where
  message := d.message.flatten "\n" 0
  phase
  category := d.category
  code := d.code
  file := d.file
  line := d.line
  column := d.column

/-- The category and the code. -/
def head (e : Entry) : String :=
  match e.code with
  | none => e.category.text
  | some code => e.category.text ++ " TS" ++ toString code

/-- The column that is written: a missing one, and zero, count as the first. -/
def writtenColumn (e : Entry) : Int :=
  match e.column with
  | none => 1
  | some c => if c = 0 then 1 else c

/-- **The line of an entry**: its place where it has one, then category, code and message. -/
def format (e : Entry) : String :=
  match e.file with
  | none => e.head ++ ": " ++ e.message
  | some file =>
    let place :=
      match e.line with
      | none => file
      | some line =>
        file ++ "(" ++ toString line ++ "," ++ toString e.writtenColumn ++ ")"
    place ++ ": " ++ e.head ++ ": " ++ e.message

end Entry

/-- How a run ends. -/
inductive Outcome where
  | success
  | failure (entries : List Entry)
  deriving DecidableEq, Repr

/-- The entries of both phases. -/
def entriesOf (pre emit : List Diagnostic) : List Entry :=
  pre.map (Entry.ofDiagnostic .preEmit) ++ emit.map (Entry.ofDiagnostic .emit)

theorem entriesOf_eq_nil_iff {pre emit : List Diagnostic} :
    entriesOf pre emit = [] ↔ pre = [] ∧ emit = [] := by
  simp [entriesOf]

/-- **The outcome** of the diagnostics of both phases. -/
def Outcome.collect (pre emit : List Diagnostic) : Outcome :=
  match entriesOf pre emit with
  | [] => .success
  | entries => .failure entries

theorem Outcome.collect_eq_failure {pre emit : List Diagnostic}
    (h : ¬(pre = [] ∧ emit = [])) :
    Outcome.collect pre emit = .failure (entriesOf pre emit) := by
  rw [collect]
  split
  · rename_i hnone
    exact absurd (entriesOf_eq_nil_iff.mp hnone) h
  · rfl

/-- The lines of entries, a blank line between any two. -/
def aggregate (entries : List Entry) : String :=
  "\n\n".intercalate (entries.map Entry.format)

end TsProject

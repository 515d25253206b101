import TsProject.Diagnostic.Basic
import TsProject.Fault
import TsProject.Path
import TsProject.Text.Blank
import TsProject.Text.Digit
import TsProject.Text.Lines

/-!
# Compiler output

The compiler prints a line for each diagnostic, with or without a place in front, lines
indented by at least two blanks for what a diagnostic's message goes on with, and a line for
each file it writes. `Output.parse` takes its output apart line by line; what is none of these is
kept as it stands.

Diagnostics with codes that are raised while output is written belong to the second phase, all
others to the first.
-/

namespace TsProject

/-- The codes of diagnostics that are raised while output is written. -/
def emitCodes : List Int := [5033, 5055, 5056]

/-- The first line of a diagnostic. -/
structure Head where
  category : Category
  code : Nat
  text : String
  file : Option String := none
  line : Option Nat := none
  column : Option Nat := none
  deriving DecidableEq, Repr

namespace Head

/-- A run of digits at the start of a text, when there is one, and the rest. -/
def digits? (cs : List Char) : Option (List Char × List Char) :=
  let run := cs.takeWhile Text.isDecimal
  if run.isEmpty then none else some (run, cs.drop run.length)

/-- The category, the digits of the code and the message at the start of a text. -/
def kind? (cs : List Char) : Option (Category × List Char × List Char) :=
  Category.all.findSome? fun category => do
    let rest ← Text.dropStart? category.text.toList cs
    let rest ← Text.dropStart? " TS".toList rest
    let (code, rest) ← digits? rest
    let message ← Text.dropStart? ": ".toList rest
    return (category, code, message)

/-- What stands after the name of the file: the digits of line and column, and the rest as in
`kind?`. -/
def place? (cs : List Char) :
    Option (List Char × List Char × Category × List Char × List Char) := do
  let rest ← Text.dropStart? ['('] cs
  let (line, rest) ← digits? rest
  let rest ← Text.dropStart? [','] rest
  let (column, rest) ← digits? rest
  let rest ← Text.dropStart? "): ".toList rest
  let (category, code, message) ← kind? rest
  return (line, column, category, code, message)

/-- The shortest name of a file after which a place stands, with what stands after it. `name`
holds the characters before, last first. -/
def located? (name : List Char) : List Char →
    Option (List Char × List Char × List Char × Category × List Char × List Char)
  | [] => none
  | c :: rest =>
    let here := if name.isEmpty then none else place? (c :: rest)
    match here with
    | some found => some (name.reverse, found)
    | none => located? (c :: name) rest

/-- The number of a run of digits. -/
def number (digits : List Char) : Except Fault Nat :=
  if Json.maxDigits < digits.length then .error (.tooManyDigits digits.length)
  else .ok (Text.natOfDigits digits)

/-- A path of the output, resolved against the directory that the compiler ran in. -/
def resolve (cwd : String) (path : List Char) : String :=
  Path.resolve cwd (String.ofList (Text.trimChars path))

/-- **The head** that a line is, if it is one. -/
def parse? (cwd : String) (line : List Char) : Except Fault (Option Head) :=
  match located? [] line with
  | some (file, row, column, category, code, message) => do
    let code ← number code
    let row ← number row
    let column ← number column
    return some { category, code, text := String.ofList message
                  file := some (resolve cwd file), line := some row, column := some column }
  | none =>
    match kind? line with
    | some (category, code, message) => do
      let code ← number code
      return some { category, code, text := String.ofList message }
    | none => return none

end Head

/-- A diagnostic whose message may go on: its head and the lines after it, with their depths,
last first. -/
structure Pending where
  head : Head
  lines : List (Nat × String) := []

/-- The diagnostic of a head and the lines after it. -/
def Pending.finish (p : Pending) : Diagnostic where
  category := p.head.category
  code := some p.head.code
  message :=
    if p.lines.isEmpty then .plain p.head.text
    else .chain (Chain.ofLines p.head.text p.lines.reverse)
  file := p.head.file
  line := p.head.line.map Int.ofNat
  column := p.head.column.map Int.ofNat

/-- What has been read of the output, last first, and the diagnostic that may go on. -/
structure Reading where
  diagnostics : List Diagnostic := []
  emitted : List String := []
  unparsed : List String := []
  pending : Option Pending := none

/-- What the compiler's output says. -/
structure Output where
  pre : List Diagnostic
  emit : List Diagnostic
  emitted : List String
  unparsed : List String

namespace Output

/-- The diagnostic that may go on is complete. -/
def flush (r : Reading) : Reading :=
  match r.pending with
  | none => r
  | some p => { r with diagnostics := p.finish :: r.diagnostics, pending := none }

/-- The depth and the text of an indented line. -/
def indented? (line : List Char) : Option (Nat × String) :=
  let text := line.dropWhile (· = ' ')
  let blanks := line.length - text.length
  if blanks < 2 then none else some (blanks / 2, String.ofList text)

/-- The path of a line that names a written file. -/
def emitted? (line : List Char) : Option (List Char) :=
  match Text.dropStart? "TSFILE: ".toList line with
  | some (c :: rest) => some (c :: rest)
  | _ => none

/-- Reads a line that does not go on with a diagnostic. -/
def readFresh (cwd : String) (r : Reading) (line : List Char) : Except Fault Reading :=
  let r := flush r
  match emitted? line with
  | some path => .ok { r with emitted := Head.resolve cwd path :: r.emitted }
  | none => do
    match ← Head.parse? cwd line with
    | some head => return { r with pending := some { head } }
    | none => return { r with unparsed := String.ofList line :: r.unparsed }

/-- **Reads a line.** -/
def readLine (cwd : String) (r : Reading) (line : List Char) : Except Fault Reading :=
  if line.all Text.isBlank then .ok r
  else
    match r.pending, indented? line with
    | some p, some more => .ok { r with pending := some { p with lines := more :: p.lines } }
    | _, _ => readFresh cwd r line

/-- Reads lines one after the other. -/
def readLines (cwd : String) : Reading → List (List Char) → Except Fault Reading
  | r, [] => .ok r
  | r, line :: rest => do readLines cwd (← readLine cwd r line) rest

/-- The diagnostic is raised while output is written. -/
def isEmission (d : Diagnostic) : Bool := d.code.any emitCodes.contains

/-- **What the output of a compiler run in `cwd` says.** -/
def parse (text cwd : String) : Except Fault Output := do
  let r := flush (← readLines cwd {} (Text.linesFrom [] text.toList))
  let diagnostics := r.diagnostics.reverse
  return { pre := diagnostics.filter (!isEmission ·)
           emit := diagnostics.filter isEmission
           emitted := r.emitted.reverse
           unparsed := r.unparsed.reverse }

end Output

end TsProject

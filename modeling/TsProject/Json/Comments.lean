import TsProject.Json.Parser
import TsProject.Text.Blank

/-!
# Comments and trailing commas

Configuration files hold data values with comments and trailing commas. `stripChars` blanks both
and keeps every line feed, so that a position in the stripped text is that position in the file.

* One scan from left to right marks each character as part of the code, of a string or of a
  comment (`marks`). A string runs from a quote to the next one that no backslash escapes; a line
  comment from two slashes up to the line feed; a block comment from `/*` through the next `*/`
  that does not overlap it. What is not closed runs to the end.
* One pass from right to left then blanks every comma of the code whose next character outside
  comments and blanks closes a list or an object (`blankMarked`).

`Sweep.loop` does both at once, with the last comma kept in mind, and comes to the same.
-/

namespace TsProject.Json

/-- What a character is part of. -/
inductive Mark where
  | code
  | string
  | comment
  deriving DecidableEq, Repr

/-- Where the scan stands. -/
inductive ScanMode where
  | code
  | string
  | escaped
  | lineComment
  | blockComment
  deriving DecidableEq, Repr

/-- **The scan**: marks each character of a text. -/
def marks : ScanMode → List Char → List (Char × Mark)
  | _, [] => []
  | .code, '/' :: '/' :: rest => ('/', .comment) :: ('/', .comment) :: marks .lineComment rest
  | .code, '/' :: '*' :: rest => ('/', .comment) :: ('*', .comment) :: marks .blockComment rest
  | .code, '"' :: rest => ('"', .string) :: marks .string rest
  | .code, c :: rest => (c, .code) :: marks .code rest
  | .string, '"' :: rest => ('"', .string) :: marks .code rest
  | .string, '\\' :: rest => ('\\', .string) :: marks .escaped rest
  | .string, c :: rest => (c, .string) :: marks .string rest
  | .escaped, c :: rest => (c, .string) :: marks .string rest
  | .lineComment, '\n' :: rest => ('\n', .code) :: marks .code rest
  | .lineComment, c :: rest => (c, .comment) :: marks .lineComment rest
  | .blockComment, '*' :: '/' :: rest => ('*', .comment) :: ('/', .comment) :: marks .code rest
  | .blockComment, c :: rest => (c, .comment) :: marks .blockComment rest

/-- A comma before `next` closes nothing off: it is trailing. -/
def closes (next : Option Char) : Bool := next = some '\x7d' || next = some ']'

/-- Blanks the comments and the trailing commas of a marked text; beside it, its next solid
character, that is, the next one of the code or of a string that is not blank. -/
def blankMarked : List (Char × Mark) → List Char × Option Char
  | [] => ([], none)
  | (c, mark) :: rest =>
    let (out, next) := blankMarked rest
    match mark with
    | .comment => ((if c = '\n' then c else ' ') :: out, next)
    | .string => (c :: out, some c)
    | .code =>
      ((if c = ',' && closes next then ' ' else c) :: out,
        if Text.isBlank c then next else some c)

/-- The text without comments and trailing commas. -/
def stripChars (cs : List Char) : List Char := (blankMarked (marks .code cs)).1

/-- The text without comments and trailing commas. -/
def strip (s : String) : String := String.ofList (stripChars s.toList)

/-- The characters without byte order marks in front. -/
def dropMarks (cs : List Char) : List Char := cs.dropWhile (· = '\ufeff')

/-- **Reading with comments**: the value that a text writes once it is stripped. A text of
blanks alone is an empty object. -/
def readRelaxedChars (cs : List Char) : Except ReadError Json :=
  let stripped := stripChars (dropMarks cs)
  if stripped.all Text.isBlank then .ok (.obj []) else readChars stripped

/-- The value that a text with comments writes. -/
def readRelaxed (s : String) : Except ReadError Json := readRelaxedChars s.toList

/-- Marking keeps the characters. -/
theorem map_fst_marks (mode : ScanMode) (cs : List Char) : (marks mode cs).map (·.1) = cs := by
  fun_induction marks mode cs <;> simp_all

/-- Blanking keeps the number of characters. -/
theorem length_blankMarked (ms : List (Char × Mark)) :
    (blankMarked ms).1.length = ms.length := by
  induction ms with
  | nil => rfl
  | cons m rest ih => rcases m with ⟨c, _ | _ | _⟩ <;> simp [blankMarked, ih]

/-- **Positions are kept**: the stripped text is as long as the text. -/
theorem length_stripChars (cs : List Char) : (stripChars cs).length = cs.length := by
  rw [stripChars, length_blankMarked, ← List.length_map (f := (·.1)), map_fst_marks]

end TsProject.Json

/-!
# Lines

A text is cut into lines at line feeds, carriage returns, the pair of both, vertical tabs, form
feeds, the three upper information separators, and the next-line, line-separator and
paragraph-separator characters. The breaks themselves are dropped, and a break at the very end
opens no further line. `unifyNewlines` turns carriage returns, alone or before a line feed, into
line feeds.
-/

namespace TsProject.Text

/-- The character ends a line. -/
def isLineBreak (c : Char) : Bool :=
  c = '\n' || c = '\r' || c = '\x0b' || c = '\x0c' || c = '\x1c' || c = '\x1d' || c = '\x1e' ||
    c = '\u0085' || c = '\u2028' || c = '\u2029'

/-- The lines of `cs`, where `line` holds the characters of the current line, last first. -/
def linesFrom (line : List Char) : List Char → List (List Char)
  | [] => if line.isEmpty then [] else [line.reverse]
  | '\r' :: '\n' :: rest => line.reverse :: linesFrom [] rest
  | c :: rest =>
    if isLineBreak c then line.reverse :: linesFrom [] rest else linesFrom (c :: line) rest

/-- The lines of a text, without their breaks. -/
def lines (s : String) : List String := (linesFrom [] s.toList).map String.ofList

/-- `cs` with every carriage return, and every pair with a line feed, made one line feed. -/
def unifyNewlineChars : List Char → List Char
  | [] => []
  | '\r' :: '\n' :: rest => '\n' :: unifyNewlineChars rest
  | c :: rest => (if c = '\r' then '\n' else c) :: unifyNewlineChars rest

/-- The text with every line ending made one line feed. -/
def unifyNewlines (s : String) : String := String.ofList (unifyNewlineChars s.toList)

end TsProject.Text

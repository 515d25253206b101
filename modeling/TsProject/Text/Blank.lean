import TsProject.Text.Runs

/-!
# Blank characters and trimming

The blank characters are those of the white-space class together with the four information
separators. Trimming removes them, or any other class of characters, from the ends of a text.
-/

namespace TsProject.Text

/-- Where runs of blank code points start and stop. -/
def blankBounds : List Nat :=
  [0x9, 0xe, 0x1c, 0x21, 0x85, 0x86, 0xa0, 0xa1, 0x1680, 0x1681,
  0x2000, 0x200b, 0x2028, 0x202a, 0x202f, 0x2030, 0x205f, 0x2060, 0x3000, 0x3001]

/-- The character is blank. -/
def isBlank (c : Char) : Bool := inRuns blankBounds c.toNat

/-- `cs` without the characters of the class `p` at its end. -/
def dropEndWhile (p : Char → Bool) (cs : List Char) : List Char :=
  cs.foldr (fun c kept => if kept.isEmpty && p c then [] else c :: kept) []

/-- `cs` without the blanks at either end. -/
def trimChars (cs : List Char) : List Char := dropEndWhile isBlank (cs.dropWhile isBlank)

/-- The text without the blanks at either end. -/
def trim (s : String) : String := String.ofList (trimChars s.toList)

/-- Nothing but blanks. -/
def isBlankText (s : String) : Bool := s.toList.all isBlank

end TsProject.Text

/-!
# Cutting and joining

Texts are cut at a separating character, keeping empty pieces, so that joining the pieces with
that character gives the text back (`joinWith_splitOnChar`).
-/

namespace TsProject.Text

/-- The pieces of `cs` between the occurrences of `sep`; there is always at least one. -/
def splitOnChar (sep : Char) : List Char → List (List Char)
  | [] => [[]]
  | c :: rest =>
    if c = sep then [] :: splitOnChar sep rest
    else
      match splitOnChar sep rest with
      | [] => [[c]]
      | piece :: pieces => (c :: piece) :: pieces

/-- The pieces with `sep` between any two of them. -/
def joinWith (sep : Char) : List (List Char) → List Char
  | [] => []
  | [piece] => piece
  | piece :: pieces => piece ++ sep :: joinWith sep pieces

theorem splitOnChar_ne_nil (sep : Char) (cs : List Char) : splitOnChar sep cs ≠ [] := by
  cases cs with
  | nil => simp [splitOnChar]
  | cons c rest =>
    by_cases h : c = sep
    · simp [splitOnChar, h]
    · simp only [splitOnChar, h, if_false]
      split <;> simp

/-- **Nothing is lost**: joining the pieces gives the text back. -/
theorem joinWith_splitOnChar (sep : Char) (cs : List Char) :
    joinWith sep (splitOnChar sep cs) = cs := by
  induction cs with
  | nil => rfl
  | cons c rest ih =>
    by_cases h : c = sep
    · cases hs : splitOnChar sep rest with
      | nil => exact absurd hs (splitOnChar_ne_nil sep rest)
      | cons piece pieces => simp_all [splitOnChar, joinWith]
    · cases hs : splitOnChar sep rest with
      | nil => exact absurd hs (splitOnChar_ne_nil sep rest)
      | cons piece pieces =>
        cases pieces <;> simp_all [splitOnChar, joinWith]

/-- The pieces of a text between the occurrences of `sep`. -/
def splitOn (sep : Char) (s : String) : List String :=
  (splitOnChar sep s.toList).map String.ofList

/-- The text without the prefix `start`, if it begins with it. -/
def dropStart? : (start cs : List Char) → Option (List Char)
  | [], cs => some cs
  | _ :: _, [] => none
  | a :: start, c :: cs => if a = c then dropStart? start cs else none

/-- The text begins with `start`. -/
def startsWith (s start : String) : Bool := (dropStart? start.toList s.toList).isSome

/-- The text ends with `tail`. -/
def endsWith (s tail : String) : Bool :=
  (dropStart? tail.toList.reverse s.toList.reverse).isSome

end TsProject.Text

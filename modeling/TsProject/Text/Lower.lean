import TsProject.Text.Cased
import TsProject.Text.LowerTable

/-!
# Lower-casing

Full lower-casing of a text. Capitals move by the distance of their run; the dotted capital I
becomes two characters; a capital sigma becomes the final small sigma at the end of a word and
the ordinary one elsewhere.
-/

namespace TsProject.Text

/-- The small letter of a capital, the character itself when it has none. -/
def lowerChar (c : Char) : Char :=
  match lowerRuns.find? (·.covers c.toNat) with
  | some run => Char.ofNat (c.toNat + run.shift).toNat
  | none => c

/-- The nearest character that is not case-ignorable is cased. -/
def nearestIsCased (cs : List Char) : Bool :=
  match cs.find? (!isCaseIgnorable ·) with
  | some c => isCased c
  | none => false

/-- Lower-cases `cs`; `before` holds the characters already passed, the nearest first. -/
def lowerAfter (before : List Char) : List Char → List Char
  | [] => []
  | c :: rest =>
    let mapped :=
      if c = 'Σ' then
        [if nearestIsCased before && !nearestIsCased rest then 'ς' else 'σ']
      else if c = 'İ' then ['i', '\u0307']
      else [lowerChar c]
    mapped ++ lowerAfter (c :: before) rest

/-- The text in lower case. -/
def lower (s : String) : String := String.ofList (lowerAfter [] s.toList)

end TsProject.Text

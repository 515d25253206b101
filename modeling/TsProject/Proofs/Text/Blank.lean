import TsProject.Text.Blank

/-!
# Trimming: laws

A text whose first and last characters are not blank is trimmed already (`trimChars_eq_self`).
-/

namespace TsProject.Text

theorem dropEndWhile_concat {p : Char → Bool} {c : Char} (h : p c = false) (cs : List Char) :
    dropEndWhile p (cs ++ [c]) = cs ++ [c] := by
  have hkept : ∀ kept, kept ≠ [] → cs.foldr
      (fun c kept => if kept.isEmpty && p c then [] else c :: kept) kept = cs ++ kept := by
    intro kept hne
    induction cs with
    | nil => rfl
    | cons d cs ih =>
      rw [List.foldr_cons, ih]
      simp [hne]
  rw [dropEndWhile, List.foldr_append]
  have hlast :
      [c].foldr (fun c kept => if kept.isEmpty && p c then [] else c :: kept) [] = [c] := by
    simp [h]
  rw [hlast, hkept _ (List.cons_ne_nil c [])]

/-- **Trimmed already**: neither end is blank. -/
theorem trimChars_eq_self {c : Char} {rest : List Char} (hfirst : isBlank c = false)
    (hlast : ∀ d ∈ (c :: rest).getLast?, isBlank d = false) :
    trimChars (c :: rest) = c :: rest := by
  rw [trimChars, List.dropWhile_cons_of_neg (by simp [hfirst])]
  obtain ⟨before, d, hcs⟩ : ∃ before d, c :: rest = before ++ [d] :=
    ⟨_, _, (List.dropLast_concat_getLast (List.cons_ne_nil c rest)).symm⟩
  rw [hcs]
  exact dropEndWhile_concat (hlast d (by simp [hcs])) before

end TsProject.Text

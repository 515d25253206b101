import TsProject.Proofs.Text.Split
import TsProject.Text.Lines

/-!
# Lines: laws

Lines that hold no break come back when they are written with a line feed between any two
(`linesFrom_joinWith`), unless the last of them is empty.
-/

namespace TsProject.Text

/-- The characters of one line: none of them is a break. -/
def IsOneLine (cs : List Char) : Prop := ∀ c ∈ cs, isLineBreak c = false

-- the members alone are looked at, not all characters
instance (cs : List Char) : Decidable (IsOneLine cs) :=
  List.decidableBAll (fun c => isLineBreak c = false) cs

theorem isOneLine_nil : IsOneLine [] := by simp [IsOneLine]

theorem isOneLine_append_iff {cs ds : List Char} :
    IsOneLine (cs ++ ds) ↔ IsOneLine cs ∧ IsOneLine ds := List.forall_mem_append

theorem isOneLine_cons_iff {c : Char} {cs : List Char} :
    IsOneLine (c :: cs) ↔ isLineBreak c = false ∧ IsOneLine cs := List.forall_mem_cons

/-- A character that is no break goes on the current line. -/
theorem linesFrom_cons {c : Char} (h : isLineBreak c = false) (line rest : List Char) :
    linesFrom line (c :: rest) = linesFrom (c :: line) rest := by
  have hc : c ≠ '\r' := by
    rintro rfl
    cases h
  rw [linesFrom.eq_def]
  split <;> simp_all

theorem linesFrom_lineFeed (line rest : List Char) :
    linesFrom line ('\n' :: rest) = line.reverse :: linesFrom [] rest := by
  rw [linesFrom.eq_def]
  split
  · simp_all
  · simp_all
  · rename_i hcons
    obtain ⟨rfl, rfl⟩ := List.cons_eq_cons.mp hcons
    rw [if_pos (by decide)]

theorem linesFrom_nil {line : List Char} (h : line ≠ []) : linesFrom line [] = [line.reverse] := by
  rw [linesFrom.eq_def]
  simp [h]

theorem linesFrom_append {cs : List Char} (h : IsOneLine cs) (line rest : List Char) :
    linesFrom line (cs ++ rest) = linesFrom (cs.reverse ++ line) rest := by
  induction cs generalizing line with
  | nil => rfl
  | cons c cs ih =>
    obtain ⟨hc, hcs⟩ := isOneLine_cons_iff.mp h
    rw [List.cons_append, linesFrom_cons hc, ih hcs, List.reverse_cons, List.append_assoc]
    rfl

/-- **Written lines** come back, if the last one is not empty. -/
theorem linesFrom_joinWith {lines : List (List Char)} (h : ∀ line ∈ lines, IsOneLine line)
    (hlast : ∀ line ∈ lines.getLast?, line ≠ []) : linesFrom [] (joinWith '\n' lines) = lines := by
  induction lines with
  | nil => rfl
  | cons first rest ih =>
    have hfirst := h first (by simp)
    cases rest with
    | nil =>
      have hne : first.reverse ≠ [] := by simpa using hlast
      have happend := linesFrom_append hfirst [] []
      rw [List.append_nil, List.append_nil, linesFrom_nil hne, List.reverse_reverse] at happend
      exact happend
    | cons next rest =>
      rw [joinWith_cons, headed_cons, List.cons_append, ← joinWith_cons, linesFrom_append hfirst,
        linesFrom_lineFeed, ih (fun line hline => h line (by simp [hline])) (by simpa using hlast)]
      simp

/-- Blocks of lines with two line feeds between any two of them are lines with an empty one
between any two blocks. -/
theorem intercalate_map_joinWith {block : List (List Char)} {blocks : List (List (List Char))}
    (h : ∀ b ∈ block :: blocks, b ≠ []) :
    ['\n', '\n'].intercalate ((block :: blocks).map (joinWith '\n')) =
      joinWith '\n' (block ++ blocks.flatMap ([] :: ·)) := by
  induction blocks generalizing block with
  | nil => simp
  | cons next blocks ih =>
    obtain ⟨first, more, rfl⟩ := List.exists_cons_of_ne_nil (h block (by simp))
    obtain ⟨second, others, rfl⟩ := List.exists_cons_of_ne_nil (h next (by simp))
    have hrest := ih fun b hb => h b (List.mem_cons_of_mem _ hb)
    rw [List.map_cons] at hrest
    rw [List.map_cons, List.map_cons, List.intercalate_cons_cons, hrest, List.flatMap_cons,
      List.cons_append, List.cons_append, List.cons_append, joinWith_cons, joinWith_cons,
      joinWith_cons]
    simp

/-- What is written with something between any two parts holds every part as it is. -/
theorem infix_intercalate_of_mem {part between : List Char} {parts : List (List Char)}
    (h : part ∈ parts) : part <:+: between.intercalate parts := by
  induction parts with
  | nil => cases h
  | cons first parts ih =>
    cases parts with
    | nil =>
      obtain rfl := List.mem_singleton.mp h
      exact ⟨[], [], by simp⟩
    | cons next parts =>
      rw [List.intercalate_cons_cons]
      rcases List.mem_cons.mp h with rfl | h
      · exact ⟨[], between ++ between.intercalate (next :: parts), by simp⟩
      · exact (ih h).trans (List.suffix_append _ _).isInfix

end TsProject.Text

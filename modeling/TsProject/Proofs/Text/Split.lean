import Mathlib.Data.List.Basic
import TsProject.Text.Split

/-!
# Cutting and joining: laws

A text cut at a separator consists of pieces that do not hold it, and any pieces of that kind
come back from their joined text. `headed sep pieces` writes the separator in front of *every*
piece; it is the form in which texts are taken apart piece by piece, since a rest of it is empty
or begins with the separator (`AtSep`), and a place of that kind is never inside a piece.
-/

namespace TsProject.Text

/-! ### Prefixes -/

theorem dropStart?_eq_some_iff {start cs rest : List Char} :
    dropStart? start cs = some rest ↔ cs = start ++ rest := by
  induction start generalizing cs with
  | nil => simp [dropStart?, eq_comm]
  | cons a start ih =>
    cases cs with
    | nil => simp [dropStart?]
    | cons c cs =>
      by_cases h : a = c
      · subst h; simp [dropStart?, ih]
      · simp [dropStart?, h, Ne.symm h]

theorem isSome_dropStart?_iff {start cs : List Char} :
    (dropStart? start cs).isSome ↔ start <+: cs := by
  rw [Option.isSome_iff_exists]
  constructor
  · rintro ⟨rest, h⟩
    exact ⟨rest, (dropStart?_eq_some_iff.mp h).symm⟩
  · rintro ⟨rest, h⟩
    exact ⟨rest, dropStart?_eq_some_iff.mpr h.symm⟩

theorem startsWith_iff {s start : String} :
    startsWith s start ↔ start.toList <+: s.toList := isSome_dropStart?_iff

theorem endsWith_iff {s tail : String} : endsWith s tail ↔ tail.toList <:+ s.toList := by
  rw [endsWith, isSome_dropStart?_iff, List.reverse_prefix]

/-! ### Pieces -/

section Pieces

variable {sep : Char}

/-- No piece holds the separator. -/
theorem not_mem_of_mem_splitOnChar {cs piece : List Char} (h : piece ∈ splitOnChar sep cs) :
    sep ∉ piece := by
  induction cs generalizing piece with
  | nil =>
    simp only [splitOnChar, List.mem_singleton] at h
    simp [h]
  | cons c cs ih =>
    by_cases hc : c = sep
    · simp only [splitOnChar, hc, if_true, List.mem_cons] at h
      rcases h with rfl | h
      · simp
      · exact ih h
    · cases hs : splitOnChar sep cs with
      | nil => exact absurd hs (splitOnChar_ne_nil sep cs)
      | cons first pieces =>
        simp only [splitOnChar, hc, if_false, hs, List.mem_cons] at h
        rcases h with rfl | h
        · simpa [Ne.symm hc] using ih (by simp [hs])
        · exact ih (by simp [hs, h])

theorem splitOnChar_of_not_mem {cs : List Char} (h : sep ∉ cs) : splitOnChar sep cs = [cs] := by
  induction cs with
  | nil => rfl
  | cons c cs ih =>
    simp only [List.mem_cons, not_or] at h
    simp [splitOnChar, Ne.symm h.1, ih h.2]

theorem splitOnChar_append_sep {piece : List Char} (rest : List Char) (h : sep ∉ piece) :
    splitOnChar sep (piece ++ sep :: rest) = piece :: splitOnChar sep rest := by
  induction piece with
  | nil => simp [splitOnChar]
  | cons c piece ih =>
    simp only [List.mem_cons, not_or] at h
    simp [splitOnChar, Ne.symm h.1, ih h.2]

/-! ### A separator in front of every piece -/

/-- The pieces, each with the separator in front. -/
def headed (sep : Char) (pieces : List (List Char)) : List Char :=
  pieces.flatMap (sep :: ·)

@[simp] theorem headed_nil : headed sep [] = [] := rfl

@[simp] theorem headed_cons (piece : List Char) (pieces : List (List Char)) :
    headed sep (piece :: pieces) = sep :: piece ++ headed sep pieces := rfl

@[simp] theorem headed_append (first second : List (List Char)) :
    headed sep (first ++ second) = headed sep first ++ headed sep second :=
  List.flatMap_append

theorem joinWith_cons (piece : List Char) (pieces : List (List Char)) :
    joinWith sep (piece :: pieces) = piece ++ headed sep pieces := by
  induction pieces generalizing piece with
  | nil => simp [joinWith]
  | cons next pieces ih => simp [joinWith, ih]

/-- A text with the separator in front is its pieces, each with the separator in front. -/
theorem headed_splitOnChar (cs : List Char) : headed sep (splitOnChar sep cs) = sep :: cs := by
  cases hs : splitOnChar sep cs with
  | nil => exact absurd hs (splitOnChar_ne_nil sep cs)
  | cons piece pieces =>
    rw [headed_cons, List.cons_append, ← joinWith_cons, ← hs, joinWith_splitOnChar]

/-- The characters of the pieces are characters of the text. -/
theorem mem_of_mem_splitOnChar {cs piece : List Char} {c : Char} (h : piece ∈ splitOnChar sep cs)
    (hc : c ∈ piece) : c ∈ cs := by
  have hheaded : c ∈ headed sep (splitOnChar sep cs) :=
    List.mem_flatMap.mpr ⟨piece, h, List.mem_cons_of_mem _ hc⟩
  rw [headed_splitOnChar] at hheaded
  refine (List.mem_cons.mp hheaded).resolve_left ?_
  rintro rfl
  exact not_mem_of_mem_splitOnChar h hc

theorem splitOnChar_headed {piece : List Char} {pieces : List (List Char)}
    (h : sep ∉ piece) (hs : ∀ p ∈ pieces, sep ∉ p) :
    splitOnChar sep (piece ++ headed sep pieces) = piece :: pieces := by
  induction pieces generalizing piece with
  | nil => simpa using splitOnChar_of_not_mem h
  | cons next pieces ih =>
    rw [headed_cons, List.cons_append, splitOnChar_append_sep _ h,
      ih (hs next (by simp)) fun p hp => hs p (by simp [hp])]

/-- A separator between two texts separates their pieces. -/
theorem splitOnChar_append (cs rest : List Char) :
    splitOnChar sep (cs ++ sep :: rest) = splitOnChar sep cs ++ splitOnChar sep rest := by
  have hheaded : headed sep (splitOnChar sep cs ++ splitOnChar sep rest) =
      sep :: (cs ++ sep :: rest) := by
    rw [headed_append, headed_splitOnChar, headed_splitOnChar, List.cons_append]
  have hsplit : splitOnChar sep (sep :: (cs ++ sep :: rest)) =
      [] :: (splitOnChar sep cs ++ splitOnChar sep rest) := by
    rw [← hheaded, ← List.nil_append (headed sep _)]
    refine splitOnChar_headed (by simp) fun piece hpiece => ?_
    rcases List.mem_append.mp hpiece with hpiece | hpiece <;>
      exact not_mem_of_mem_splitOnChar hpiece
  simpa [splitOnChar] using hsplit

/-- **Nothing is added**: pieces without the separator come back from their joined text. -/
theorem splitOnChar_joinWith {pieces : List (List Char)} (hne : pieces ≠ [])
    (h : ∀ p ∈ pieces, sep ∉ p) : splitOnChar sep (joinWith sep pieces) = pieces := by
  cases pieces with
  | nil => exact absurd rfl hne
  | cons piece pieces =>
    rw [joinWith_cons]
    exact splitOnChar_headed (h piece (by simp)) fun p hp => h p (by simp [hp])

/-- The text is empty or begins with the separator. -/
def AtSep (sep : Char) (cs : List Char) : Prop := ∀ c ∈ cs.head?, c = sep

@[simp] theorem atSep_nil : AtSep sep [] := by simp [AtSep]

@[simp] theorem atSep_cons {c : Char} {cs : List Char} : AtSep sep (c :: cs) ↔ c = sep := by
  simp [AtSep]

theorem atSep_headed (pieces : List (List Char)) : AtSep sep (headed sep pieces) := by
  cases pieces <;> simp

theorem takeWhile_ne_sep_append {piece rest : List Char} (h : sep ∉ piece)
    (hrest : AtSep sep rest) : (piece ++ rest).takeWhile (· != sep) = piece := by
  have hpiece : ∀ c ∈ piece, (c != sep) = true := fun c hc => by
    simpa using ne_of_mem_of_not_mem hc h
  rw [List.takeWhile_append_of_pos hpiece]
  cases rest with
  | nil => simp
  | cons c rest => simp [atSep_cons.mp hrest]

/-- A piece ends where the text first reaches the separator. -/
theorem append_inj_of_atSep {a b s t : List Char} (h : a ++ s = b ++ t) (ha : sep ∉ a)
    (hb : sep ∉ b) (hs : AtSep sep s) (ht : AtSep sep t) : a = b ∧ s = t := by
  have hab : a = b := by
    rw [← takeWhile_ne_sep_append ha hs, h, takeWhile_ne_sep_append hb ht]
  subst hab
  exact ⟨rfl, List.append_cancel_left h⟩

/-- A beginning without the separator is the beginning of the first piece. -/
theorem prefix_of_append_eq {run rest piece tail : List Char} (h : run ++ rest = piece ++ tail)
    (hrun : sep ∉ run) (htail : AtSep sep tail) :
    ∃ more, piece = run ++ more ∧ rest = more ++ tail := by
  rcases List.append_eq_append_iff.mp h with ⟨more, hpiece, hrest⟩ | ⟨beyond, hbeyond, htail'⟩
  · exact ⟨more, hpiece, hrest⟩
  · cases beyond with
    | nil => exact ⟨[], by simpa using hbeyond.symm, by simpa using htail'.symm⟩
    | cons c beyond =>
      subst htail' hbeyond
      exact absurd (atSep_cons.mp htail) fun hc => hrun (by simp [hc])

/-- A rest that is empty or begins with the separator starts where a piece does. -/
theorem split_of_headed_eq_append {pieces : List (List Char)} {cs rest : List Char}
    (h : headed sep pieces = cs ++ rest) (hpieces : ∀ p ∈ pieces, sep ∉ p)
    (hrest : AtSep sep rest) :
    ∃ first second, pieces = first ++ second ∧ rest = headed sep second := by
  induction pieces generalizing cs with
  | nil =>
    have hnil : cs ++ rest = [] := by simpa using h.symm
    exact ⟨[], [], rfl, (List.append_eq_nil_iff.mp hnil).2⟩
  | cons piece pieces ih =>
    cases cs with
    | nil => exact ⟨[], piece :: pieces, rfl, by simpa using h.symm⟩
    | cons c cs =>
      have htail : piece ++ headed sep pieces = cs ++ rest := by
        simpa using (List.cons_eq_cons.mp (by simpa using h)).2
      rcases List.append_eq_append_iff.mp htail with
        ⟨beyond, hcs, hmore⟩ | ⟨beyond, hpiece, hbeyond⟩
      · obtain ⟨first, second, rfl, hsecond⟩ :=
          ih hmore fun p hp => hpieces p (by simp [hp])
        exact ⟨piece :: first, second, rfl, hsecond⟩
      · cases beyond with
        | nil => exact ⟨[piece], pieces, rfl, by simpa using hbeyond⟩
        | cons d beyond =>
          -- the rest would begin inside the piece
          subst hbeyond
          refine absurd (atSep_cons.mp hrest) fun hd => hpieces piece (by simp) ?_
          simp [hpiece, hd]

end Pieces

end TsProject.Text

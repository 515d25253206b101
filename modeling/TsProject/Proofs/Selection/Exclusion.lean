import TsProject.Proofs.Selection.Base
import TsProject.Proofs.Selection.Glob

/-!
# Directories as exclude specifications

A directory that is to be excluded is read as a specification, in which `*`, `?` and a component
`**` of its path are wildcards. They do no harm: every wildcard takes itself as well, so that a
directory takes itself and everything that lies within it (`accepts_of_isWithin`), whatever its
name.

The two roots are the exception. The slash at the end of their text is read as one more, empty
component, and no path but a root has one there.
-/

namespace TsProject.FileSpec

open Text (headed)
open TsProject.Path (IsName IsNormal ofNames)

/-! ### Components take themselves -/

section Self

variable {next : List Char → Bool} {component tail : List Char}

/-- The characters of a component, wildcards among them, match the component. -/
theorem matchesPieces_pieceOf_self (hslash : '/' ∉ component) (h : next tail) :
    matchesPieces next (component.map pieceOf) (component ++ tail) := by
  induction component with
  | nil => exact h
  | cons c component ih =>
    have hrest := ih fun hmem => hslash (List.mem_cons_of_mem c hmem)
    have hc : (c != '/') = true := bne_iff_ne.mpr (ne_of_mem_of_not_mem (by simp) hslash)
    rw [List.map_cons, List.cons_append]
    by_cases hstar : c = '*'
    · subst hstar
      rw [show pieceOf '*' = .run from rfl, matchesPieces, afterRun_iff]
      exact ⟨['*'], _, rfl, by simp, hrest⟩
    · by_cases hone : c = '?'
      · subst hone
        rw [show pieceOf '?' = .one from rfl, matchesPieces, hc, Bool.true_and]
        exact hrest
      · rw [show pieceOf c = .char c by simp [pieceOf, hstar, hone], matchesPieces,
          beq_self_eq_true, Bool.true_and]
        exact hrest

/-- A component of an exclude specification takes itself. -/
theorem matchesPieces_componentPieces_self (hslash : '/' ∉ component) (h : next tail) :
    matchesPieces next (componentPieces true component) (component ++ tail) := by
  cases hwild : hasWildcardChars component with
  | true =>
    rw [componentPieces_of_wild hwild, if_neg (by simp), List.nil_append]
    exact matchesPieces_pieceOf_self hslash h
  | false =>
    rw [show componentPieces true component = component.map .char by simp [componentPieces, hwild],
      matchesPieces_chars_iff]
    exact ⟨tail, rfl, h⟩

/-- **Components take themselves**, and leave what follows them. -/
theorem matchesFrom_self {components : List (List Char)} (hslash : ∀ c ∈ components, '/' ∉ c)
    (h : ending true tail) : matchesFrom true components (headed '/' components ++ tail) := by
  induction components with
  | nil => exact h
  | cons component components ih =>
    obtain ⟨hfirst, hothers⟩ := List.forall_mem_cons.mp hslash
    rw [Text.headed_cons, List.append_assoc, List.cons_append]
    by_cases hdirs : component = anyDirsName
    · -- `**` passes a directory of that name
      subst hdirs
      rw [matchesFrom_dirs, if_pos rfl, anyDirsName, List.cons_append, afterAnyDirs,
        Bool.or_eq_true, Bool.and_eq_true, afterRun_iff]
      exact .inr ⟨by decide, ['*'], _, rfl, by simp, ih hothers⟩
    · rw [matchesFrom_name hdirs, matchesPieces_slash_iff]
      exact ⟨_, rfl, matchesPieces_componentPieces_self hfirst (ih hothers)⟩

end Self

/-! ### Directories take what lies within them -/

/-- **A directory takes what lies within it**, whatever wildcards there are in its path, unless it
is a root. -/
theorem accepts_of_isWithin {dir path : String} (hdir : IsNormal dir) (hroot : dir ≠ "/")
    (hdouble : dir ≠ "//") (h : isWithin dir path) : accepts true dir path := by
  obtain ⟨k, names, hk, hnames, hne, rfl⟩ :=
    (IsBase.mk hdir hdouble).eq_root_or.resolve_left hroot
  -- the text of what lies within goes on behind that of the directory, with a slash if at all
  obtain ⟨rest, htext, hend⟩ :
      ∃ rest, path.toList = (ofNames (k + 1) names).toList ++ rest ∧ ending true rest := by
    have hstrip := dropWhile_slash_reverse (Path.getLast?_assemble k hne hnames)
    rw [isWithin, Bool.or_eq_true, beq_iff_eq, Text.startsWith_iff, String.toList_ofList,
      Path.toList_ofNames _ names, hstrip, ← Path.toList_ofNames] at h
    rcases h with rfl | ⟨below, hbelow⟩
    · exact ⟨[], (List.append_nil _).symm, rfl⟩
    · exact ⟨'/' :: below, by rw [← hbelow, List.append_assoc]; rfl, rfl⟩
  rw [accepts_ofNames true hk hne hnames, htext, toList_eq_headed_trail hk hne hnames]
  exact matchesFrom_self (fun _ => Path.noSlash_of_mem_trail) hend

end TsProject.FileSpec

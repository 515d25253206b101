import TsProject.Proofs.Path.Below

/-!
# Tidy paths

Tidying takes away the components of a path that lead nowhere, and no others: the solid parts
stay the same (`solidParts_tidy`) and so does the root (`rootLength_tidy`). A relative path that
is put behind an absolute one adds its solid parts to those of that one, so that it does not
matter whether it was tidy before (`tidy_join_tidy`).
-/

namespace TsProject.Path

open Text (splitOnChar)

/-- A component that leads somewhere. -/
structure IsSolid (part : List Char) : Prop where
  notIdle : isIdle part = false
  noSlash : '/' ∉ part

theorem isSolid_of_mem_solidParts {cs part : List Char} (h : part ∈ solidParts cs) :
    IsSolid part := by
  obtain ⟨hmem, hidle⟩ := List.mem_filter.mp h
  exact ⟨by simpa using hidle, Text.not_mem_of_mem_splitOnChar hmem⟩

theorem IsSolid.exists_cons {part : List Char} (h : IsSolid part) :
    ∃ c rest, part = c :: rest ∧ c ≠ '/' := by
  cases part with
  | nil => exact absurd h.notIdle (by decide)
  | cons c rest => exact ⟨c, rest, rfl, fun hc => h.noSlash (by simp [hc])⟩

/-! ### The text of a root and solid parts -/

section Assemble

variable {components : List (List Char)} (h : ∀ part ∈ components, IsSolid part)
include h

theorem assemble_of_ne_nil (root : Nat) (hne : components ≠ []) :
    assemble root components = List.replicate root '/' ++ Text.joinWith '/' components := by
  cases components with
  | nil => exact absurd rfl hne
  | cons part rest =>
    obtain ⟨c, cs, rfl, -⟩ := (h part (by simp)).exists_cons
    rw [assemble, Text.joinWith_cons]
    cases root <;> simp [List.replicate_succ]

/-- **Solid parts come back** from their text. -/
theorem solidParts_assemble_of_isSolid (root : Nat) :
    solidParts (assemble root components) = components := by
  by_cases hne : components = []
  · subst hne
    cases root with
    | zero => rfl
    | succ k => exact solidParts_assemble k (by simp)
  · have hroot : (List.replicate root ([] : List Char)).filter (!isIdle ·) = [] := by
      simp [isIdle]
    rw [assemble_of_ne_nil h root hne, solidParts, parts, splitOnChar_replicate_append,
      Text.splitOnChar_joinWith hne fun part hpart => (h part hpart).noSlash, List.filter_append,
      hroot, List.nil_append, List.filter_eq_self]
    exact fun part hpart => by simp [(h part hpart).notIdle]

/-- A root of at most two slashes comes back from its text. -/
theorem rootLength_assemble_of_isSolid {root : Nat} (hroot : root ≤ 2) :
    rootLength (assemble root components) = root := by
  obtain rfl | rfl | rfl : root = 0 ∨ root = 1 ∨ root = 2 := by omega
  all_goals
    cases components with
    | nil => rfl
    | cons part rest =>
      obtain ⟨c, cs, rfl, hc⟩ := (h part (by simp)).exists_cons
      rw [assemble_of_ne_nil h _ (by simp), Text.joinWith_cons]
      simp [List.replicate_succ, rootLength, hc]

end Assemble

/-! ### Tidying -/

theorem solidParts_tidy (path : String) :
    solidParts (tidy path).toList = solidParts path.toList := by
  rw [tidy, String.toList_ofList]
  exact solidParts_assemble_of_isSolid (fun _ => isSolid_of_mem_solidParts) _

theorem rootLength_tidy (path : String) :
    rootLength (tidy path).toList = rootLength path.toList := by
  rw [tidy, String.toList_ofList]
  exact rootLength_assemble_of_isSolid (fun _ => isSolid_of_mem_solidParts) (rootLength_le_two _)

theorem isAbsolute_tidy_eq (path : String) : isAbsolute (tidy path) = isAbsolute path := by
  rw [isAbsolute, rootLength_tidy, isAbsolute]

/-! ### Relative paths behind absolute ones -/

section Join

variable {base path : List Char} (hbase : rootLength base ≠ 0) (hpath : rootLength path = 0)
include hbase hpath

/-- A relative path goes behind an absolute one with a slash between them, if there is none. -/
theorem joinChars_of_relative : joinChars base path =
    if base.getLast? = some '/' then base ++ path else base ++ '/' :: path := by
  have hne : base ≠ [] := by
    rintro rfl
    exact hbase rfl
  simp [joinChars, hpath, hne]

/-- A relative path does not change the root that it is put behind. -/
theorem rootLength_joinChars : rootLength (joinChars base path) = rootLength base := by
  have hhead : ∀ c ∈ path.head?, c ≠ '/' := by
    rintro c hc rfl
    obtain ⟨rest, rfl⟩ := List.head?_eq_some_iff.mp hc
    exact rootLength_ne_zero_iff.mpr ⟨rest, rfl⟩ hpath
  have hbehind : ∀ slashes : List Char, slashes = ['/'] ∨ slashes = ['/', '/'] →
      rootLength (slashes ++ path) = rootLength slashes := by
    rintro slashes (rfl | rfl) <;> cases path with
    | nil => rfl
    | cons c path => simp [rootLength, hhead c rfl]
  rw [joinChars_of_relative hbase hpath]
  -- a text that is longer than its root decides by itself
  obtain ⟨base, rfl⟩ := rootLength_ne_zero_iff.mp hbase
  rcases base with _ | ⟨b, _ | ⟨c, rest⟩⟩
  · exact hbehind ['/'] (.inl rfl)
  · by_cases hb : b = '/'
    · subst hb
      exact hbehind ['/', '/'] (.inr rfl)
    · split_ifs <;> simp [rootLength, hb]
  · by_cases hb : b = '/' <;> by_cases hc : c = '/' <;> split_ifs <;> simp [rootLength, hb, hc]

/-- A relative path adds its parts. -/
theorem solidParts_joinChars :
    solidParts (joinChars base path) = solidParts base ++ solidParts path := by
  have hbetween : ∀ first second : List Char,
      solidParts (first ++ '/' :: second) = solidParts first ++ solidParts second := by
    intro first second
    rw [solidParts, parts, Text.splitOnChar_append, List.filter_append]
    rfl
  rw [joinChars_of_relative hbase hpath]
  split_ifs with hslash
  · obtain ⟨before, rfl⟩ := List.getLast?_eq_some_iff.mp hslash
    rw [List.append_assoc, List.singleton_append, hbetween, hbetween before []]
    simp [solidParts, parts, splitOnChar, isIdle]
  · exact hbetween base path

end Join

/-- **A relative path below an absolute one** adds its solid parts to those of that one. -/
theorem child_of_relative {base path : String} (hbase : isAbsolute base)
    (hpath : isAbsolute path = false) : child base path =
      ofNames (rootLength base.toList) (solidParts base.toList ++ solidParts path.toList) := by
  have hroot : rootLength base.toList ≠ 0 := by simpa [isAbsolute] using hbase
  have hrelative : rootLength path.toList = 0 := by simpa [isAbsolute] using hpath
  rw [child, tidy, join, String.toList_ofList, rootLength_joinChars hroot hrelative,
    solidParts_joinChars hroot hrelative, ofNames]

/-- **Tidying first makes no difference** to a relative path behind an absolute one. -/
theorem tidy_join_tidy {base path : String} (hbase : isAbsolute base)
    (hpath : isAbsolute path = false) : tidy (join base (tidy path)) = tidy (join base path) := by
  rw [← child, ← child, child_of_relative hbase hpath,
    child_of_relative hbase ((isAbsolute_tidy_eq path).trans hpath), solidParts_tidy]

/-! ### Texts of solid parts -/

section OfNames

variable {k : Nat} (hk : k + 1 = 1 ∨ k + 1 = 2) {components : List (List Char)}
variable (h : ∀ part ∈ components, IsSolid part)
include hk h

theorem tidy_ofNames : tidy (ofNames (k + 1) components) = ofNames (k + 1) components := by
  rw [tidy, toList_ofNames, solidParts_assemble_of_isSolid h,
    rootLength_assemble_of_isSolid h (by omega), ofNames]

theorem child_ofNames {path : String} (hpath : isAbsolute path = false) :
    child (ofNames (k + 1) components) path =
      ofNames (k + 1) (components ++ solidParts path.toList) := by
  rw [child_of_relative (isAbsolute_ofNames (Nat.succ_ne_zero k) _) hpath, toList_ofNames,
    solidParts_assemble_of_isSolid h, rootLength_assemble_of_isSolid h (by omega)]

end OfNames

end TsProject.Path

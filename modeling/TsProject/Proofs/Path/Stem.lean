import Mathlib.Data.List.TakeWhile
import TsProject.Proofs.Path.Below

/-!
# Stems of paths

A normal path without the extension of its last name need not be normal: nothing may be left of
the name. What is left is a root, names and one more component (`IsStem`), whatever is cut away
(`IsStem.stem`), and a new extension makes a normal path of it again
(`IsStem.isNormal_append`).
-/

namespace TsProject.Path

/-- **The stem of a path**: a root, names and a last component, any text without a slash. -/
def IsStem (path : String) : Prop :=
  ∃ k names last, (k + 1 = 1 ∨ k + 1 = 2) ∧ (∀ n ∈ names, IsName n) ∧ '/' ∉ last ∧
    path = ofNames (k + 1) (names ++ [last])

/-! ### Last components -/

/-- The last component comes behind a slash, and what comes before that does not depend on it. -/
theorem exists_assemble_concat (k : Nat) (names : List (List Char)) :
    ∃ dir, ∀ last, assemble (k + 1) (names ++ [last]) = dir ++ '/' :: last := by
  by_cases hne : names = []
  · subst hne
    exact ⟨List.replicate k '/', fun last => by simp [assemble_succ_cons]⟩
  · exact ⟨assemble (k + 1) names, fun last => by simp [assemble_append k hne]⟩

theorem baseNameChars_append {dir last : List Char} (h : '/' ∉ last) :
    baseNameChars (dir ++ '/' :: last) = last := by
  rw [baseNameChars, parts, Text.splitOnChar_append, Text.splitOnChar_of_not_mem h]
  simp

theorem noSlash_baseNameChars (cs : List Char) : '/' ∉ baseNameChars cs := by
  rw [baseNameChars]
  cases hlast : (parts cs).getLast? with
  | none => exact List.not_mem_nil
  | some part => exact Text.not_mem_of_mem_splitOnChar (List.mem_of_getLast? hlast)

/-- The characters before one that fails a test are fewer than all. -/
theorem length_takeWhile_lt {p : Char → Bool} {cs : List Char} {c : Char} (hc : c ∈ cs)
    (hp : p c = false) : (cs.takeWhile p).length < cs.length := by
  have hbegins : cs.takeWhile p <+: cs := List.takeWhile_prefix p
  refine lt_of_le_of_ne hbegins.length_le fun hlength => ?_
  have hall := List.takeWhile_eq_self_iff.mp (hbegins.eq_of_length hlength)
  rw [hall c hc] at hp
  cases hp

/-- **Cutting the extension away** leaves a part of the last component. -/
theorem exists_stemChars_append {dir last : List Char} (h : '/' ∉ last) :
    ∃ n, stemChars (dir ++ '/' :: last) = dir ++ '/' :: last.take n := by
  let body := last.drop (last.takeWhile (· = '.')).length
  let extension := (body.reverse.takeWhile (· ≠ '.')).length + 1
  have hstem : stemChars (dir ++ '/' :: last) = if body.contains '.' then
      (dir ++ '/' :: last).take ((dir ++ '/' :: last).length - extension)
      else dir ++ '/' :: last := by
    rw [stemChars, baseNameChars_append h]
  rw [hstem]
  split_ifs with hpoint
  · -- the extension begins with a point of the component, and is no longer than it
    have hmem : '.' ∈ body.reverse := by simpa using hpoint
    have hshort := length_takeWhile_lt (p := (· ≠ '.')) hmem (by simp)
    rw [List.length_reverse] at hshort
    have hbody : body.length ≤ last.length := by simp [body]
    have hlength : extension ≤ last.length := (Nat.succ_le_of_lt hshort).trans hbody
    have hcut : (dir ++ ['/'] ++ last).length - extension =
        (dir ++ ['/']).length + (last.length - extension) := by
      rw [List.length_append, Nat.add_sub_assoc hlength]
    refine ⟨last.length - extension, ?_⟩
    rw [List.append_cons, hcut, List.take_length_add_append, ← List.append_cons]
  · exact ⟨last.length, by rw [List.take_length]⟩

/-! ### Stems -/

theorem isStem_of_isNormal {path : String} (h : IsNormal path) : IsStem path := by
  obtain ⟨k, names, hroot, hnames, rfl⟩ := h.exists_names
  rcases List.eq_nil_or_concat names with rfl | ⟨before, last, rfl⟩
  · refine ⟨k, [], [], hroot, hnames, List.not_mem_nil, ?_⟩
    rw [ofNames, ofNames, assemble_succ_nil, List.nil_append, assemble_succ_cons,
      List.replicate_succ']
    rfl
  · rw [List.concat_eq_append] at hnames ⊢
    obtain ⟨hbefore, hlast⟩ := List.forall_mem_append.mp hnames
    exact ⟨k, before, last, hroot, hbefore, (hlast last (by simp)).noSlash, rfl⟩

/-- **What is left of a stem** when its extension is cut away is a stem. -/
theorem IsStem.stem {path : String} (h : IsStem path) : IsStem (stem path) := by
  obtain ⟨k, names, last, hroot, hnames, hlast, rfl⟩ := h
  obtain ⟨dir, hdir⟩ := exists_assemble_concat k names
  obtain ⟨n, hcut⟩ : ∃ n, stemChars (dir ++ '/' :: last) = dir ++ '/' :: last.take n :=
    exists_stemChars_append hlast
  refine ⟨k, names, last.take n, hroot, hnames, fun hmem => hlast (List.mem_of_mem_take hmem), ?_⟩
  rw [Path.stem, toList_ofNames, hdir, hcut, ofNames, hdir]

/-- **The last component of a path** behind a normal path makes a stem. -/
theorem isStem_join_baseName {base : String} (h : IsNormal base) (path : String) :
    IsStem (join base (baseName path)) := by
  obtain ⟨k, names, hroot, hnames, rfl⟩ := h.exists_names
  have hlast := noSlash_baseNameChars path.toList
  exact ⟨k, names, _, hroot, hnames, hlast, join_ofNames k hnames hlast⟩

/-- **A stem with an extension** is a normal path, since the extension is too long for a component
that has a meaning of its own. -/
theorem IsStem.isNormal_append {path extension : String} (h : IsStem path)
    (hslash : '/' ∉ extension.toList) (hlong : 2 < extension.toList.length) :
    IsNormal (path ++ extension) := by
  obtain ⟨k, names, last, hroot, hnames, hlast, rfl⟩ := h
  obtain ⟨dir, hdir⟩ := exists_assemble_concat k names
  have hname : IsName (last ++ extension.toList) := by
    have hlength : 2 < (last ++ extension.toList).length := by
      rw [List.length_append]
      omega
    refine ⟨?_, ?_, ?_, ?_⟩
    · rintro hnil
      simp [hnil] at hlength
    · rintro hdot
      simp [hdot] at hlength
    · rintro hup
      simp [hup, up] at hlength
    · simpa [List.mem_append] using ⟨hlast, hslash⟩
  have hpath : ofNames (k + 1) (names ++ [last]) ++ extension =
      ofNames (k + 1) (names ++ [last ++ extension.toList]) := by
    refine String.toList_injective ?_
    rw [String.toList_append, toList_ofNames, toList_ofNames, hdir, hdir, List.append_assoc,
      List.cons_append]
  rw [hpath]
  refine isNormal_ofNames hroot (List.forall_mem_append.mpr ⟨hnames, ?_⟩)
  simpa using hname

end TsProject.Path

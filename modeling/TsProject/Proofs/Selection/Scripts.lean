import TsProject.Proofs.Selection.Shadowing

/-!
# Selections with and without scripts

Scripts have the worst rank of their family, so that they shadow nothing (`not_shadows_of_script`).
Every other step of a selection looks at one file at a time, and so it does not matter at which
step scripts are left out: a selection without scripts is the one with scripts, the scripts found
left out of it (`select_false_eq`), in the same order (`files_select_false`).
-/

namespace TsProject

/-! ### Scripts -/

namespace Extension

/-- Scripts come last. -/
theorem rank_le_of_mem_scripts :
    ∀ e ∈ all, e.text ∈ scripts → ∀ f ∈ all, f.rank ≤ e.rank := by decide

/-- Every supported extension is either one of sources and declarations or one of scripts. -/
theorem mem_sources_iff : ∀ e ∈ all, e.text ∈ sources ↔ e.text ∉ scripts := by decide

end Extension

namespace Selection

open Extension (scripts sources Shadows)

/-- The path is no script. -/
def isNoScript (path : String) : Bool := !hasExtension scripts path

theorem hasExtension_iff {extensions : List String} {path : String} :
    hasExtension extensions path ↔ ∃ e, Extension.of? path = some e ∧ e.text ∈ extensions := by
  rw [hasExtension, Option.any_eq_true]
  simp only [List.contains_iff_mem]

/-- **Scripts shadow nothing.** -/
theorem not_shadows_of_script {p : String} (h : isNoScript p = false) (q : String) :
    ¬ Shadows p q := by
  rintro ⟨e, f, hp, hq, -, -, hrank⟩
  have hscript : hasExtension scripts p := by simpa [isNoScript] using h
  obtain ⟨e', hp', hmem⟩ := hasExtension_iff.mp hscript
  obtain rfl := Option.some.inj (hp.symm.trans hp')
  have hle := Extension.rank_le_of_mem_scripts e (List.mem_of_find?_eq_some hp) hmem f
    (List.mem_of_find?_eq_some hq)
  omega

/-- Without scripts, those files are allowed that are no scripts. -/
theorem hasExtension_allowed_false (path : String) :
    hasExtension (allowed false) path = (isNoScript path && hasExtension (allowed true) path) := by
  rw [isNoScript, hasExtension, hasExtension, hasExtension]
  cases hfound : Extension.of? path with
  | none => rfl
  | some e =>
    have hkinds := Extension.mem_sources_iff e (List.mem_of_find?_eq_some hfound)
    rw [Bool.eq_iff_iff]
    simp [allowed, hkinds]

/-- Sources and declarations are no scripts. -/
theorem isNoScript_of_sources {path : String} (h : hasExtension sources path) :
    isNoScript path := by
  obtain ⟨e, hfound, hmem⟩ := hasExtension_iff.mp h
  have hnot : e.text ∉ scripts :=
    (Extension.mem_sources_iff e (List.mem_of_find?_eq_some hfound)).mp hmem
  simp [isNoScript, hasExtension, hfound, hnot]

/-! ### Step by step -/

theorem candidates_allowed_false (w : World) (roots exclude : List String) :
    candidates w roots exclude (allowed false) =
      (candidates w roots exclude (allowed true)).filter isNoScript := by
  rw [candidates, candidates, funext hasExtension_allowed_false, ← List.filter_filter,
    eraseDups_filter, List.filter_comm]

theorem inBuckets_filter (specs paths : List String) (keep : String → Bool) :
    inBuckets specs (paths.filter keep) = (inBuckets specs paths).filter keep := by
  rw [inBuckets, inBuckets, List.filter_flatMap]
  exact congrArg (List.flatMap · _) (funext fun i => List.filter_comm _ _ _)

theorem fresh_allowed_false (w : World) (roots specs exclude literal : List String) :
    fresh w roots specs exclude (allowed false) literal =
      (fresh w roots specs exclude (allowed true) literal).filter isNoScript := by
  rw [fresh, fresh, candidates_allowed_false, inBuckets_filter, List.filter_comm]

/-! ### Selections -/

/-- **A selection without scripts** is the one with scripts, without those that were found. -/
theorem select_false_eq (w : World) (files : Option (List String)) (incl exclude : List String) :
    select w files incl exclude false = (select w files incl exclude true).map fun s =>
      ⟨s.literal, s.found.filter isNoScript⟩ := by
  rcases exists_expand_or incl with ⟨specs, hspecs⟩ | ⟨e, he⟩
  · rw [select, select, ← allowed, ← allowed, matchFiles_eq w exclude _ hspecs,
      matchFiles_eq w exclude _ hspecs]
    split_ifs with hnull
    · rfl
    · have hscripts : ∀ literal : List String,
          Extension.dropShadowed literal
            (fresh w (FileSpec.walkRoots specs) specs exclude (allowed false) literal) =
          (Extension.dropShadowed literal
            (fresh w (FileSpec.walkRoots specs) specs exclude (allowed true) literal)).filter
              isNoScript := by
        intro literal
        rw [fresh_allowed_false]
        exact Extension.dropShadowed_filter fun p _ hp => not_shadows_of_script hp
      exact congrArg (fun found => Except.ok (Selection.mk _ found)) (hscripts _)
  · rw [select, select, matchFiles, matchFiles, he]
    rfl

section Files

variable {w : World} {files : Option (List String)} {incl exclude : List String} {s : Selection}

/-- The files of a selection without the scripts among those that were found. -/
theorem filter_files_of_select (h : select w files incl exclude true = .ok s) :
    (s.files.filter fun path =>
      ((files.getD []).map Path.normalize).contains path || !hasExtension scripts path) =
        s.literal ++ s.found.filter isNoScript := by
  obtain ⟨hliteral, specs, -, hfound⟩ := isFound_of_select h
  have hnamed : ∀ path, path ∈ s.literal ↔ path ∈ (files.getD []).map Path.normalize := by
    intro path
    rw [hliteral, List.mem_eraseDups]
  rw [Selection.files, List.filter_append]
  congr 1
  · refine List.filter_eq_self.mpr fun path hpath => ?_
    have hmem := (hnamed path).mp hpath
    rw [Bool.or_eq_true]
    exact .inl (List.contains_iff_mem.mpr hmem)
  · refine List.filter_congr fun path hpath => ?_
    have hnot : ¬ ((files.getD []).map Path.normalize).contains path := fun hcontains =>
      (hfound path hpath).notNamed ((hnamed path).mpr (List.contains_iff_mem.mp hcontains))
    rw [Bool.eq_false_of_not_eq_true hnot, Bool.false_or, isNoScript]

/-- The sources and declarations of a selection are the same without the scripts that were
found. -/
theorem filter_sources_eq (literal found : List String) :
    (literal ++ found.filter isNoScript).filter (hasExtension sources) =
      (literal ++ found).filter (hasExtension sources) := by
  rw [List.filter_append, List.filter_append, List.filter_filter]
  refine congrArg _ (List.filter_congr fun path _ => ?_)
  by_cases hsource : hasExtension sources path
  · rw [isNoScript_of_sources hsource, Bool.and_true]
  · rw [Bool.eq_false_of_not_eq_true hsource, Bool.false_and]

end Files

/-- **Allowing scripts** only adds scripts: without it, the files are the same in the same order,
but for the scripts among those that are not named. The sources and declarations are all the
same. -/
theorem files_select_false (w : World) (files : Option (List String)) (incl exclude : List String) :
    (select w files incl exclude false).map Selection.files =
      (select w files incl exclude true).map (fun s => s.files.filter fun path =>
        ((files.getD []).map Path.normalize).contains path || !hasExtension scripts path) ∧
    (select w files incl exclude false).map (fun s => s.files.filter (hasExtension sources)) =
      (select w files incl exclude true).map (fun s => s.files.filter (hasExtension sources)) := by
  rw [select_false_eq]
  cases hselect : select w files incl exclude true with
  | error e => exact ⟨rfl, rfl⟩
  | ok s =>
    have hfiles := filter_files_of_select hselect
    have hsources := filter_sources_eq s.literal s.found
    exact ⟨congrArg Except.ok hfiles.symm, congrArg Except.ok hsources⟩

end Selection

end TsProject

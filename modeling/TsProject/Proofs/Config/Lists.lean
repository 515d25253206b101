import TsProject.Proofs.Config.Loaded
import TsProject.Proofs.Selection.Select
import TsProject.Proofs.World.Reach

/-!
# Paths of loaded configurations

Every file makes its lists of files and of specifications absolute against its own directory, so
that what a file amounts to has normal paths in them (`Inherits.hasNormalLists`), and the files
that a walk meets below a normal path have normal paths as well. Together with
`Config.holdsPaths_of_load` this makes every path of a loaded configuration a normal one:
`hasNormalPaths_of_load`.
-/

namespace TsProject

open TsProject.Path (IsNormal)

/-! ### Inherited lists -/

/-- **Lists of normal paths**, as far as they are declared. -/
structure Inherited.HasNormalLists (e : Inherited) : Prop where
  files : ∀ paths ∈ e.files, ∀ path ∈ paths, IsNormal path
  incl : ∀ paths ∈ e.incl, ∀ path ∈ paths, IsNormal path
  excl : ∀ paths ∈ e.excl, ∀ path ∈ paths, IsNormal path

namespace Inherited

theorem HasNormalLists.combine {lower upper : Inherited} (hlower : lower.HasNormalLists)
    (hupper : upper.HasNormalLists) : (lower.combine upper).HasNormalLists := by
  have horElse : ∀ {x y : Option (List String)}, (∀ paths ∈ x, ∀ path ∈ paths, IsNormal path) →
      (∀ paths ∈ y, ∀ path ∈ paths, IsNormal path) →
      ∀ paths ∈ (y <|> x), ∀ path ∈ paths, IsNormal path := by
    intro x y hx hy paths hpaths
    rcases (Option.orElse_eq_some _ _ _).mp hpaths with hpaths | ⟨-, hpaths⟩
    · exact hy paths hpaths
    · exact hx paths hpaths
  exact ⟨horElse hlower.files hupper.files, horElse hlower.incl hupper.incl,
    horElse hlower.excl hupper.excl⟩

theorem hasNormalLists_combineAll {values : List Inherited}
    (h : ∀ e ∈ values, e.HasNormalLists) : (combineAll values).HasNormalLists := by
  induction values with
  | nil => exact ⟨by simp [combineAll], by simp [combineAll], by simp [combineAll]⟩
  | cons e values ih =>
    rw [combineAll_cons]
    exact (h e (by simp)).combine (ih fun e he => h e (by simp [he]))

/-- The own lists of a document are made absolute. -/
theorem hasNormalLists_own {doc : Document} {dir : String} {options : Fields}
    (hdir : Path.isAbsolute dir) : (own doc dir options).HasNormalLists := by
  have hresolved : ∀ declared : Option (List String),
      ∀ paths ∈ declared.map (·.map (Path.resolve dir)), ∀ path ∈ paths, IsNormal path := by
    intro declared paths hpaths path hpath
    obtain ⟨raw, -, rfl⟩ := Option.map_eq_some_iff.mp hpaths
    obtain ⟨text, -, rfl⟩ := List.mem_map.mp hpath
    exact Path.isNormal_resolve hdir text
  exact ⟨hresolved doc.files, hresolved doc.incl, hresolved doc.excl⟩

end Inherited

/-- **Inherited lists hold normal paths.** -/
theorem Inherits.hasNormalLists {w : World} {path : String} {e : Inherited}
    (h : Inherits w path e) (hpath : IsNormal path) : e.HasNormalLists := by
  induction h with
  | @file path fields options doc bases _ _ _ hbases _ ih =>
    refine Inherited.hasNormalLists_combineAll fun e he => ?_
    rcases List.mem_append.mp he with he | he
    · obtain ⟨base, hbase, rfl⟩ := List.mem_map.mp he
      obtain ⟨spec, -, hspec⟩ := List.mem_map.mp (hbases ▸ List.mem_map_of_mem hbase)
      exact ih base hbase (Config.isNormal_of_findBase hspec)
    · rw [List.mem_singleton.mp he]
      exact Inherited.hasNormalLists_own (Path.isAbsolute_parent hpath.isAbsolute)

/-! ### Excluded directories -/

/-- **A directory that builds or installations fill**: a package directory of the configuration,
or a directory that its options name for output. -/
inductive IsFilledDir (baseDir : String) (options : Fields) : (dir : String) → Prop
  | package {name : String} : name ∈ packageDirs →
    IsFilledDir baseDir options (Path.resolve baseDir name)
  | output {key dir : String} : key ∈ ["outDir", "declarationDir"] →
    options.get? key = some (.str dir) → IsFilledDir baseDir options dir

section Excluded

variable {baseDir dir : String} {options : Fields}
variable (hoptions : ∀ key v, options.get? key = some v → HoldsPaths IsNormal key v)
include hoptions

/-- Options that name a directory for output name a normal path. -/
theorem isNormal_of_output {key : String} (hkey : key ∈ ["outDir", "declarationDir"])
    (h : options.get? key = some (.str dir)) : IsNormal dir := by
  have hnames : ∀ key ∈ ["outDir", "declarationDir"], key ∈ OptionSpec.pathNames := by decide
  obtain ⟨path, heq, hnormal⟩ := (hoptions key _ h).single (hnames key hkey) (by rintro ⟨⟩)
  rwa [Json.str.inj heq]

theorem isNormal_of_isFilledDir (hbaseDir : Path.isAbsolute baseDir)
    (h : IsFilledDir baseDir options dir) : IsNormal dir := by
  cases h with
  | package _ => exact Path.isNormal_resolve hbaseDir _
  | output hkey hdir => exact isNormal_of_output hoptions hkey hdir

/-- **Where no directories are excluded**, those that builds or installations fill are. -/
theorem mem_implicitExclude_iff :
    dir ∈ Effective.implicitExclude baseDir options ↔ IsFilledDir baseDir options dir := by
  rw [Effective.implicitExclude, List.mem_append, List.mem_map, List.mem_filterMap]
  constructor
  · rintro (⟨name, hname, rfl⟩ | ⟨key, hkey, h⟩)
    · exact .package hname
    · obtain ⟨text, htext, rfl⟩ := Option.map_eq_some_iff.mp h
      obtain ⟨v, hv, htext⟩ := Option.bind_eq_some_iff.mp htext
      cases v with
      | str path =>
        obtain rfl := Option.some.inj htext
        rw [(isNormal_of_output hoptions hkey hv).normalize_eq]
        exact .output hkey hv
      | _ => cases htext
  · rintro (⟨hname⟩ | ⟨hkey, hdir⟩)
    · exact .inl ⟨_, hname, rfl⟩
    · refine .inr ⟨_, hkey, ?_⟩
      rw [hdir, Option.bind_some, Json.text?, Option.map_some,
        (isNormal_of_output hoptions hkey hdir).normalize_eq]

end Excluded

namespace Config

/-! ### Loaded configurations -/

/-- **A configuration whose paths are all normal.** -/
structure HasNormalPaths (c : Config) : Prop where
  path : IsNormal c.path
  baseDir : IsNormal c.baseDir
  options : ∀ key v, c.options.get? key = some v → HoldsPaths IsNormal key v
  files : ∀ paths ∈ c.files, ∀ path ∈ paths, IsNormal path
  incl : ∀ path ∈ c.incl, IsNormal path
  excl : ∀ path ∈ c.excl, IsNormal path
  inputFiles : ∀ path ∈ c.inputFiles, IsNormal path

variable {w : World} {path : String} {requireInputs : Bool} {c : Config}

/-- The files of a finished configuration are selected by its lists. -/
theorem exists_select_of_finish {layerCount : Nat} {e : Effective}
    (h : finish w path requireInputs layerCount e = .ok (.ok c)) :
    ∃ allowScripts, Selection.select w c.files c.incl c.excl allowScripts = .ok c.selection := by
  obtain ⟨options, -, h⟩ := bind_ok_iff.mp h
  dsimp only at h
  split at h
  · cases Except.ok.inj h
  · cases h
  · rename_i selection hselect
    split_ifs at h with hempty hcause
    · cases Except.ok.inj h
    · cases Except.ok.inj h
    · obtain rfl := Except.ok.inj (Except.ok.inj h)
      exact ⟨_, hselect⟩

/-- The include specifications are normal: those inherited, or everything below the directory. -/
theorem isNormal_of_mem_include? {e : Effective} (h : e.inherited.HasNormalLists) {dir : String}
    (hdir : Path.isAbsolute dir) : ∀ path ∈ (e.include? dir).getD [], IsNormal path := by
  rw [getD_include?]
  cases hdeclared : e.inherited.incl with
  | some paths => exact h.incl paths hdeclared
  | none =>
    split_ifs
    · simpa using Path.isNormal_resolve hdir _
    · simp

/-- Files that are named or found by normal paths have normal paths. -/
theorem isNormal_of_select {files : Option (List String)} {incl exclude : List String}
    {allowScripts : Bool} {s : Selection}
    (hfiles : ∀ paths ∈ files, ∀ path ∈ paths, IsNormal path) (hincl : ∀ path ∈ incl, IsNormal path)
    (h : Selection.select w files incl exclude allowScripts = .ok s) :
    ∀ path ∈ s.files, IsNormal path := by
  obtain ⟨hliteral, specs, hspecs, hfound⟩ := Selection.isFound_of_select h
  intro path hpath
  rcases List.mem_append.mp hpath with hpath | hpath
  · rw [hliteral, List.mem_eraseDups, List.mem_map] at hpath
    obtain ⟨named, hnamed, rfl⟩ := hpath
    cases files with
    | none => cases hnamed
    | some paths => exact Path.isNormal_normalize (hfiles paths rfl named hnamed).isAbsolute
  · obtain ⟨root, hroot, hwalk⟩ := List.mem_flatMap.mp (hfound path hpath).walked
    have hbase := FileSpec.isBase_of_mem_walkRoots hincl hspecs hroot
    exact World.isNormal_of_mem_walk hbase.isNormal.isAbsolute hwalk

/-- **All paths of a loaded configuration are normal.** -/
theorem hasNormalPaths_of_load (h : load w path requireInputs = .ok (.ok c)) :
    c.HasNormalPaths := by
  obtain ⟨located, fields, collected, hlocated, hread, hcollected, hproblems, hfinish⟩ :=
    exists_finish_of_load h
  obtain ⟨hpath, hrealizes⟩ := realizes_of_finish hfinish
  obtain ⟨-, hbaseDir⟩ := finalOptions_of_finish hfinish
  obtain ⟨allowScripts, hselect⟩ := exists_select_of_finish hfinish
  obtain ⟨habsolute, -, hoptions⟩ := holdsPaths_of_load h
  have hlocatedNormal := isNormal_of_locate hlocated
  have hlists := (inherits_of_collect hlocated hread hcollected hproblems).hasNormalLists
    hlocatedNormal
  have hfiles : ∀ paths ∈ c.files, ∀ path ∈ paths, IsNormal path := hrealizes.files ▸ hlists.files
  have hincl : ∀ path ∈ c.incl, IsNormal path := by
    rw [hrealizes.incl, ← getD_include?]
    exact isNormal_of_mem_include? hlists habsolute
  have hexcl : ∀ path ∈ c.excl, IsNormal path := by
    rw [hrealizes.excl]
    cases hdeclared : (Effective.ofLayers collected.layers).inherited.excl with
    | some paths => exact hlists.excl paths hdeclared
    | none =>
      exact fun path hmem => isNormal_of_isFilledDir hoptions habsolute
        ((mem_implicitExclude_iff hoptions).mp hmem)
  exact {
    path := hpath ▸ hlocatedNormal
    baseDir := hbaseDir ▸ hlocatedNormal.parent
    options := hoptions
    files := hfiles
    incl := hincl
    excl := hexcl
    inputFiles := isNormal_of_select hfiles hincl hselect }

end Config

end TsProject

import TsProject.Proofs.Options.Settled
import TsProject.Proofs.Path.Below

/-!
# Paths among options

Some options hold a path, some a list of paths. `HoldsPaths` says so of a value, with a property
of every path in it: options of the table hold texts there, and resolving them makes the texts
normal paths (`HoldsPaths.resolveValue`), which stay as they are when they are resolved again,
whatever against (`resolveValue_of_holdsPaths`). Settled options with normal paths are therefore
the same options when they are loaded for any directory (`exists_load_of_isSettled`).
-/

namespace TsProject

open TsProject.Path (IsNormal)

/-- **A value that holds paths where its option does**, null apart, all of them with a property. -/
structure HoldsPaths (P : String → Prop) (key : String) (v : Json) : Prop where
  single : key ∈ OptionSpec.pathNames → v ≠ .null → ∃ path, v = .str path ∧ P path
  list : key ∈ OptionSpec.pathListNames → v ≠ .null →
    ∃ paths : List String, v = .arr (paths.map .str) ∧ ∀ path ∈ paths, P path

/-! ### Accepted options -/

/-- An option that holds a path takes a text. -/
theorem OptionSpec.mem_all_of_mem_pathNames : ∀ key ∈ pathNames,
    (⟨key, .text⟩ : OptionSpec) ∈ all := by decide +kernel

/-- An option that holds a list of paths takes a list of texts. -/
theorem OptionSpec.mem_all_of_mem_pathListNames : ∀ key ∈ pathListNames,
    (⟨key, .texts⟩ : OptionSpec) ∈ all := by decide +kernel

namespace HoldsPaths

variable {P Q : String → Prop} {key : String} {v : Json}

theorem mono (h : HoldsPaths P key v) (hPQ : ∀ path, P path → Q path) : HoldsPaths Q key v where
  single hkey hv :=
    let ⟨path, hpath, hP⟩ := h.single hkey hv
    ⟨path, hpath, hPQ path hP⟩
  list hkey hv :=
    let ⟨paths, hpaths, hP⟩ := h.list hkey hv
    ⟨paths, hpaths, fun path hmem => hPQ path (hP path hmem)⟩

/-- An option that holds no paths has no condition on its value. -/
theorem of_not_mem (hsingle : key ∉ OptionSpec.pathNames) (hlist : key ∉ OptionSpec.pathListNames) :
    HoldsPaths P key v where
  single hkey := absurd hkey hsingle
  list hkey := absurd hkey hlist

/-- **Options of the table** hold texts where there should be paths. -/
theorem of_isOption (h : CompilerOptions.IsOption key v) : HoldsPaths (fun _ => True) key v where
  single hkey hv := by
    have hspec := OptionSpec.mem_all_of_mem_pathNames key hkey
    cases (CompilerOptions.isOption_iff hspec).mp h with
    | null => exact absurd rfl hv
    | text path => exact ⟨path, rfl, trivial⟩
  list hkey hv := by
    have hspec := OptionSpec.mem_all_of_mem_pathListNames key hkey
    cases (CompilerOptions.isOption_iff hspec).mp h with
    | null => exact absurd rfl hv
    | texts paths => exact ⟨paths, rfl, fun _ _ => trivial⟩

end HoldsPaths

/-! ### Resolving -/

namespace CompilerOptions

theorem resolveValue_null (base key : String) : resolveValue base key .null = .null := rfl

theorem resolveValue_str {key : String} (h : key ∈ OptionSpec.pathNames) (base path : String) :
    resolveValue base key (.str path) = .str (Path.resolve base path) := by
  simp [resolveValue, h]

theorem resolveValue_arr {key : String} (h : key ∈ OptionSpec.pathListNames) (base : String)
    (paths : List String) :
    resolveValue base key (.arr (paths.map .str)) =
      .arr ((paths.map (Path.resolve base)).map .str) := by
  simp [resolveValue, h]

/-- Values of options that hold no paths stay as they are. -/
theorem resolveValue_of_not_mem {key : String} (hsingle : key ∉ OptionSpec.pathNames)
    (hlist : key ∉ OptionSpec.pathListNames) (base : String) (v : Json) :
    resolveValue base key v = v := by
  cases v <;> simp [resolveValue, hsingle, hlist]

end CompilerOptions

open CompilerOptions in
/-- **Resolving** makes paths normal. -/
theorem HoldsPaths.resolveValue {P : String → Prop} {key base : String} {v : Json}
    (h : HoldsPaths P key v) (hbase : Path.isAbsolute base) :
    HoldsPaths IsNormal key (resolveValue base key v) where
  single hkey hv := by
    by_cases hnull : v = .null
    · subst hnull
      exact absurd rfl hv
    · obtain ⟨path, rfl, -⟩ := h.single hkey hnull
      exact ⟨_, resolveValue_str hkey base path, Path.isNormal_resolve hbase path⟩
  list hkey hv := by
    by_cases hnull : v = .null
    · subst hnull
      exact absurd rfl hv
    · obtain ⟨paths, rfl, -⟩ := h.list hkey hnull
      exact ⟨_, resolveValue_arr hkey base paths,
        List.forall_mem_map.mpr fun path _ => Path.isNormal_resolve hbase path⟩

namespace CompilerOptions

/-- Options that hold texts for paths hold normal paths once they are resolved. -/
theorem holdsPaths_resolvePaths {P : String → Prop} {options : Fields} {base : String}
    (h : ∀ key v, options.get? key = some v → HoldsPaths P key v) (hbase : Path.isAbsolute base)
    (key : String) (v : Json) (hv : (resolvePaths base options).get? key = some v) :
    HoldsPaths IsNormal key v := by
  rw [get?_resolvePaths] at hv
  obtain ⟨value, hvalue, rfl⟩ := Option.map_eq_some_iff.mp hv
  exact (h key value hvalue).resolveValue hbase

/-- **Resolved values stay as they are**, whatever they are resolved against. -/
theorem resolveValue_of_holdsPaths {key : String} {v : Json} (h : HoldsPaths IsNormal key v)
    (base : String) : resolveValue base key v = v := by
  by_cases hnull : v = .null
  · rw [hnull, resolveValue_null]
  by_cases hsingle : key ∈ OptionSpec.pathNames
  · obtain ⟨path, rfl, hpath⟩ := h.single hsingle hnull
    rw [resolveValue_str hsingle, Path.resolve_of_isNormal hpath]
  by_cases hlist : key ∈ OptionSpec.pathListNames
  · obtain ⟨paths, rfl, hpaths⟩ := h.list hlist hnull
    rw [resolveValue_arr hlist,
      List.map_congr_left fun path hmem => Path.resolve_of_isNormal (hpaths path hmem) base,
      List.map_id']
  · exact resolveValue_of_not_mem hsingle hlist base v

/-- **Any text** is a settled path. -/
theorem isSettled_path {key : String} (hkey : key ∈ OptionSpec.pathNames) (path : String) :
    IsSettled key (.str path) :=
  isSettled_of_mem (OptionSpec.mem_all_of_mem_pathNames key hkey) (.text path) rfl

/-- **Resolving** keeps an option settled. -/
theorem IsSettled.resolveValue {key : String} {v : Json} (h : IsSettled key v) (base : String) :
    IsSettled key (resolveValue base key v) := by
  by_cases hnull : v = .null
  · rwa [hnull, resolveValue_null, ← hnull]
  by_cases hsingle : key ∈ OptionSpec.pathNames
  · obtain ⟨path, rfl, -⟩ := (HoldsPaths.of_isOption h.isOption).single hsingle hnull
    rw [resolveValue_str hsingle]
    exact isSettled_path hsingle _
  by_cases hlist : key ∈ OptionSpec.pathListNames
  · obtain ⟨paths, rfl, -⟩ := (HoldsPaths.of_isOption h.isOption).list hlist hnull
    rw [resolveValue_arr hlist]
    exact isSettled_of_mem (OptionSpec.mem_all_of_mem_pathListNames key hlist) (.texts _) rfl
  · rwa [resolveValue_of_not_mem hsingle hlist]

/-- **Settled options with normal paths** are the same options when they are loaded, whatever the
directory. -/
theorem exists_load_of_isSettled (hkeys : options.keys.Nodup)
    (h : ∀ key v, options.get? key = some v → IsSettled key v)
    (hpaths : ∀ key v, options.get? key = some v → HoldsPaths IsNormal key v) (base : String) :
    ∃ loaded, load (some base) options = .ok loaded ∧ loaded.Perm options := by
  obtain ⟨hcheck, hsame⟩ := check_of_isSettled h
  refine ⟨_, load_some_eq_ok_iff.mpr ⟨_, hcheck, rfl⟩, Fields.perm_of_get? ?_ hkeys fun key => ?_⟩
  · rw [keys_resolvePaths]
    exact nodup_keys_settle options
  · rw [get?_resolvePaths, hsame]
    cases hget : options.get? key with
    | none => rfl
    | some v => exact congrArg some (resolveValue_of_holdsPaths (hpaths key v hget) base)

/-- There is no odd list of paths among options that hold texts for paths. -/
theorem oddPathList?_eq_none {P : String → Prop} {options : Fields} (hkeys : options.keys.Nodup)
    (h : ∀ key v, options.get? key = some v → HoldsPaths P key v) :
    oddPathList? options = none := by
  rw [oddPathList?, Option.map_eq_none_iff, List.find?_eq_none]
  rintro ⟨key, v⟩ hmem hodd
  cases v with
  | arr items =>
    obtain ⟨hkey, hitem⟩ := Bool.and_eq_true_iff.mp hodd
    obtain ⟨paths, hpaths, -⟩ := (h key _ (Fields.get?_of_mem hkeys hmem)).list
      (by simpa using hkey) (by rintro ⟨⟩)
    obtain rfl := Json.arr.inj hpaths
    simp [Json.text?] at hitem
  | _ => cases hodd

end CompilerOptions

end TsProject

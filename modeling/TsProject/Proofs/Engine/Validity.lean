import TsProject.Proofs.Config.Mapping
import TsProject.Proofs.Engine.Project
import TsProject.Proofs.Path.Stem

/-!
# Project documents hold valid options

The options of a project document have been checked long before they get there: those of the
configuration file by file, the overrides on their own, and the output location and the place of
the incremental state not at all. Every step on the way keeps an option `IsSettled` with normal
paths: putting layers on top of one another, which only selects, resolving the targets of the
path mapping, overrides on top, resolving against the working directory, and writing the place of
the incremental state. The options of a document are therefore valid (`areValid_projectOptions`):
they would be accepted, and loading them for any directory changes nothing.
-/

namespace TsProject

open CompilerOptions CompilationUnit
open TsProject.Path (IsNormal IsStem)

/-! ### Loaded options -/

/-- Resolving the targets of a settled mapping keeps it settled. -/
theorem Inherited.isSettled_finalPaths {e : Inherited} {v : Json}
    (h : ∀ declared, e.options "paths" = some declared → IsSettled "paths" declared)
    (hv : e.finalPaths = some v) : IsSettled "paths" v := by
  have hspec : (⟨"paths", .mapping⟩ : OptionSpec) ∈ OptionSpec.all := by decide +kernel
  rw [finalPaths] at hv
  split at hv
  · rename_i dir mapping hdir hbase hpaths
    obtain rfl := Option.some.inj hv
    have hadmits := (isOption_iff hspec).mp (h _ hpaths).isOption
    cases hadmits with
    | mapping targets =>
      rw [Config.resolveMapping_ofMapping]
      exact isSettled_of_mem hspec (.mapping _) rfl
  · exact h v hv

namespace Config

variable {w : World} {path : String} {requireInputs : Bool} {c : Config} {key : String} {v : Json}

/-- **Loaded options** are settled. -/
theorem isSettled_of_load (h : load w path requireInputs = .ok (.ok c))
    (hv : c.options.get? key = some v) : IsSettled key v := by
  obtain ⟨e, hinherits, hrealizes⟩ := exists_inherits_of_load h
  have hnormal := isNormal_path_of_load h
  have hinherited : ∀ key v, e.options key = some v → IsSettled key v := by
    intro key v hv
    obtain ⟨dir, raw, options, declared, -, hcheck, hdeclared, rfl⟩ :=
      hinherits.exists_own hnormal hv
    exact (isSettled_of_check hcheck hdeclared).resolveValue dir
  by_cases hkey : key = "paths"
  · subst hkey
    rw [hrealizes.paths] at hv
    exact Inherited.isSettled_finalPaths (hinherited "paths") hv
  · rw [hrealizes.options key hkey] at hv
    exact hinherited key v hv

/-! ### Planned options -/

variable {overrides converted : Fields} {output : Option String} {cwd : String}

theorem isSettled_overriddenOption (hload : load w path requireInputs = .ok (.ok c))
    (hover : convertOverrides overrides (some c.baseDir) = .ok converted)
    (hv : c.overriddenOption overrides key = some v) : IsSettled key v := by
  rw [overriddenOption] at hv
  cases hget : overrides.get? key with
  | none =>
    rw [hget] at hv
    exact isSettled_of_load hload hv
  | some given =>
    rw [hget] at hv
    obtain rfl := Option.some.inj hv
    have hoption : IsOption key given := exists_convertOverrides_iff.mp ⟨_, hover⟩ key given hget
    exact hoption.isSettled.resolveValue c.baseDir

/-- **Planned options** are settled and hold normal paths. -/
theorem isSettled_plannedOption (hload : load w path requireInputs = .ok (.ok c))
    (hover : convertOverrides overrides (some c.baseDir) = .ok converted)
    (hcwd : Path.isAbsolute cwd) (hv : c.plannedOption overrides output cwd key = some v) :
    IsSettled key v ∧ HoldsPaths IsNormal key v := by
  rw [plannedOption] at hv
  split_ifs at hv with houtput
  · obtain ⟨rfl, -⟩ := houtput
    obtain rfl := Option.some.inj hv
    have hkey : outputDirKey ∈ OptionSpec.pathNames := by decide
    have hsettled := isSettled_path hkey (output.getD "")
    have hholds := (HoldsPaths.of_isOption hsettled.isOption).resolveValue hcwd
    rw [← resolveValue_str hkey]
    exact ⟨hsettled.resolveValue cwd, hholds⟩
  · exact ⟨isSettled_overriddenOption hload hover hv,
      (get?_update_of_load hload hover key).2 v hv⟩

end Config

/-! ### The place of the incremental state -/

namespace CompilationUnit

/-- An option that is set to a normal path. -/
theorem isNormal_of_setText?_eq_some {options : Fields} {key text : String}
    (hkey : key ∈ OptionSpec.pathNames)
    (h : ∀ v, options.get? key = some v → HoldsPaths IsNormal key v)
    (htext : setText? options key = some text) : IsNormal text := by
  rw [setText?] at htext
  split at htext
  · rename_i s hget
    split_ifs at htext
    obtain rfl := Option.some.inj htext
    obtain ⟨path, hpath, hnormal⟩ := (h _ hget).single hkey (by rintro ⟨⟩)
    exact Json.str.inj hpath ▸ hnormal
  · cases htext

/-- **The place of the incremental state** is a normal path, whatever it is derived from. -/
theorem isNormal_buildInfoPath {options : Fields} {configPath : String}
    (hconfig : IsNormal configPath)
    (h : ∀ key v, options.get? key = some v → HoldsPaths IsNormal key v) (processCwd : String) :
    IsNormal (buildInfoStem processCwd options configPath ++ ".tsbuildinfo") := by
  have hset : ∀ key ∈ OptionSpec.pathNames, ∀ text, setText? options key = some text →
      IsNormal text := fun key hkey text => isNormal_of_setText?_eq_some hkey (h key)
  have hconfigStem : IsStem (Path.stem configPath) := (Path.isStem_of_isNormal hconfig).stem
  have hstem : IsStem (buildInfoStem processCwd options configPath) := by
    rw [buildInfoStem]
    split
    · rename_i file hfile
      exact (Path.isStem_of_isNormal (hset "outFile" (by decide) file hfile)).stem
    · split
      · rename_i out root hout hroot
        have hnormal := hset "outDir" (by decide) out hout
        exact Path.isStem_of_isNormal (Path.isNormal_resolve hnormal.isAbsolute _)
      · rename_i out hout hroot
        exact Path.isStem_join_baseName (hset "outDir" (by decide) out hout) _
      · exact hconfigStem
  exact hstem.isNormal_append (by decide) (by decide)

end CompilationUnit

/-! ### Valid options -/

namespace CompilerOptions

/-- **Valid options**: no key stands there twice, all keys are those of options, checking accepts
them, and loading them for any directory gives the same options. -/
structure AreValid (options : Fields) : Prop where
  nodup : options.keys.Nodup
  known : ∀ key ∈ options.keys, key ∈ OptionSpec.names
  accepted : ∃ checked, check options = .ok checked
  stay : ∀ base, ∃ loaded, load (some base) options = .ok loaded ∧ loaded.Perm options

/-- **Settled options with normal paths** are valid. -/
theorem areValid_of_isSettled {options : Fields} (hkeys : options.keys.Nodup)
    (h : ∀ key v, options.get? key = some v → IsSettled key v ∧ HoldsPaths IsNormal key v) :
    AreValid options where
  nodup := hkeys
  known key hkey := by
    obtain ⟨v, hv⟩ := Option.isSome_iff_exists.mp (Fields.mem_keys_iff.mp hkey)
    obtain ⟨spec, hspec, rfl, -⟩ := (h key v hv).1.isOption
    exact List.mem_map_of_mem hspec
  accepted := ⟨_, (check_of_isSettled fun key v hv => (h key v hv).1).1⟩
  stay := exists_load_of_isSettled hkeys (fun key v hv => (h key v hv).1)
    fun key v hv => (h key v hv).2

end CompilerOptions

namespace Config

/-- **The options of a document are valid**, and there is a document, for every unit with the
merged options of a loaded configuration. -/
theorem areValid_projectOptions {w : World} {path : String} {requireInputs : Bool} {c : Config}
    {overrides : Fields} {output : Option String} {u : CompilationUnit}
    (hload : load w path requireInputs = .ok (.ok c))
    (hmerge : merge c.options overrides output (some c.baseDir) = .ok u.options)
    (hpath : u.configPath = c.path) (hcwd : Path.isAbsolute u.cwd) (processCwd : String) :
    u.oddOption? = none ∧ AreValid (u.projectOptions processCwd) := by
  obtain ⟨converted, hover, hoptions⟩ := exists_converted_of_merge hmerge
  obtain ⟨-, hloadedKeys, -⟩ := holdsPaths_of_load hload
  have hkeys : u.options.keys.Nodup := by
    rw [hoptions]
    exact nodup_keys_putOutput (Fields.nodup_keys_update hloadedKeys converted) output
  have hmerged := holdsPaths_merged_of_load hload hover output
  rw [← hoptions] at hmerged
  have hplanned : ∀ key v, (resolvePaths u.cwd u.options).get? key = some v →
      IsSettled key v ∧ HoldsPaths IsNormal key v := by
    intro key v hv
    rw [hoptions, get?_planned_of_load hload hover] at hv
    exact isSettled_plannedOption hload hover hcwd hv
  have hplace := isNormal_buildInfoPath (hpath ▸ isNormal_path_of_load hload)
    (fun key v hv => (hplanned key v hv).2) processCwd
  refine ⟨oddOption?_eq_none hkeys hcwd hmerged,
    areValid_of_isSettled (u.nodup_keys_projectOptions processCwd hkeys) fun key v hv => ?_⟩
  rw [get?_projectOptions processCwd rfl] at hv
  split_ifs at hv with hpinned
  · obtain ⟨rfl, -⟩ := hpinned
    obtain rfl := Option.some.inj hv
    refine ⟨isSettled_path (by decide) _, ?_, fun hkey => absurd hkey (by decide)⟩
    exact fun _ _ => ⟨_, rfl, hplace⟩
  · exact hplanned key v hv

end Config

end TsProject

import TsProject.Engine.Project
import TsProject.Proofs.Config.Loaded
import TsProject.Proofs.Options.Overrides

/-!
# What stands in a project document

The options of a document come from three tiers, and the paths of each tier are resolved against
another directory: those of the configuration against the files that declare them, those of the
overrides against the directory of the configuration, and the output location against the working
directory of the caller. `plannedOption` says what becomes of an option. Resolving everything
once more against the working directory changes nothing but the output location, because the rest
is normal already: `projectDocument_of_load`.
-/

namespace TsProject

open TsProject.Path (IsNormal)

/-! ### Options of a document -/

namespace CompilationUnit

/-- An option that holds a path and counts as set is set to a text. -/
theorem isSome_setText?_of_isSet {P : String → Prop} {options : Fields} {key : String}
    (hkey : key ∈ OptionSpec.pathNames)
    (h : ∀ v, options.get? key = some v → HoldsPaths P key v) (hset : isSet options key) :
    (setText? options key).isSome := by
  rw [isSet] at hset
  rw [setText?]
  cases hget : options.get? key with
  | none =>
    rw [hget] at hset
    cases hset
  | some v =>
    rw [hget] at hset
    have hnull : v ≠ .null := by
      rintro rfl
      cases hset
    obtain ⟨path, rfl, -⟩ := (h v hget).single hkey hnull
    have hpath : path ≠ "" := by simpa [Json.isTruthy] using hset
    simp [hpath]

/-- **No odd option** decides the place of the incremental state where options hold texts for
paths. -/
theorem oddPlaceOption?_eq_none {P : String → Prop} {options : Fields}
    (h : ∀ key v, options.get? key = some v → HoldsPaths P key v) :
    oddPlaceOption? options = none := by
  have hnames : ∀ name ∈ placeOptions options, name ∈ OptionSpec.pathNames := by
    rw [placeOptions]
    split_ifs <;> decide
  rw [oddPlaceOption?]
  split_ifs
  · rfl
  · rw [List.find?_eq_none]
    intro name hname hodd
    obtain ⟨hset, hnone⟩ := Bool.and_eq_true_iff.mp hodd
    have hsome := isSome_setText?_of_isSet (hnames name hname) (h name) hset
    rw [Option.isNone_iff_eq_none.mp hnone] at hsome
    cases hsome

/-- **No odd option** of a unit whose options hold texts for paths. -/
theorem oddOption?_eq_none {P : String → Prop} {u : CompilationUnit}
    (hkeys : u.options.keys.Nodup) (hcwd : Path.isAbsolute u.cwd)
    (h : ∀ key v, u.options.get? key = some v → HoldsPaths P key v) : u.oddOption? = none := by
  have hlists : CompilerOptions.oddPathList? u.options = none :=
    CompilerOptions.oddPathList?_eq_none hkeys h
  have hplaces : oddPlaceOption? (CompilerOptions.resolvePaths u.cwd u.options) = none :=
    oddPlaceOption?_eq_none (CompilerOptions.holdsPaths_resolvePaths h hcwd)
  rw [oddOption?, hlists, hplaces]
  rfl

/-- The key of the place of the incremental state. -/
def buildInfoKey : String := "tsBuildInfoFile"

/-- **The place of the incremental state** is added to options that keep it and set no place. -/
theorem get?_projectOptions (processCwd : String) {u : CompilationUnit} {planned : Fields}
    (h : CompilerOptions.resolvePaths u.cwd u.options = planned) (key : String) :
    (u.projectOptions processCwd).get? key =
      if key = buildInfoKey ∧ keepsState planned ∧ ¬isSet planned buildInfoKey then
        some (.str (buildInfoStem processCwd planned u.configPath ++ ".tsbuildinfo"))
      else planned.get? key := by
  rw [projectOptions, h, buildInfoPath, ← buildInfoKey]
  cases hkeeps : keepsState planned <;> cases hset : isSet planned buildInfoKey <;>
    simp [Fields.get?_set]

theorem nodup_keys_projectOptions (u : CompilationUnit) (processCwd : String)
    (h : u.options.keys.Nodup) : (u.projectOptions processCwd).keys.Nodup := by
  rw [← CompilerOptions.keys_resolvePaths u.cwd] at h
  rw [projectOptions]
  split
  · exact h
  · exact Fields.nodup_keys_set h _ _

end CompilationUnit

/-! ### Documents of loaded configurations -/

namespace Config

open CompilerOptions CompilationUnit

/-- **An option under overrides**: the value that overrides it, settled and resolved against the
directory of the configuration, or else that of the configuration. -/
def overriddenOption (c : Config) (overrides : Fields) (key : String) : Option Json :=
  match overrides.get? key with
  | some v => some (resolveValue c.baseDir key (settledValue key v))
  | none => c.options.get? key

/-- **An option as it is planned**: a given output location, resolved against the working
directory of the caller, is the output directory whatever else is said. -/
def plannedOption (c : Config) (overrides : Fields) (output : Option String) (cwd key : String) :
    Option Json :=
  if key = outputDirKey ∧ output.getD "" ≠ "" then
    some (.str (Path.resolve cwd (output.getD "")))
  else c.overriddenOption overrides key

variable {w : World} {path : String} {requireInputs : Bool} {c : Config}
  {overrides converted : Fields}

/-- Options under overrides are what overrides put on top of the configuration make of them, and
hold normal paths. -/
theorem get?_update_of_load (hload : load w path requireInputs = .ok (.ok c))
    (hover : convertOverrides overrides (some c.baseDir) = .ok converted) (key : String) :
    (c.options.update converted).get? key = c.overriddenOption overrides key ∧
      ∀ v, c.overriddenOption overrides key = some v → HoldsPaths IsNormal key v := by
  obtain ⟨hbaseDir, -, hholds⟩ := holdsPaths_of_load hload
  obtain ⟨hkeys, hconverted⟩ := get?_of_convertOverrides hover
  rw [Fields.get?_update, Fields.get?_ofMembers hkeys, hconverted, overriddenOption]
  cases hget : overrides.get? key with
  | none => exact ⟨rfl, hholds key⟩
  | some value =>
    have hoption : IsOption key value := exists_convertOverrides_iff.mp ⟨_, hover⟩ key value hget
    refine ⟨rfl, fun v hv => ?_⟩
    obtain rfl := Option.some.inj hv
    exact (HoldsPaths.of_isOption hoption.isSettled.isOption).resolveValue hbaseDir

/-- Merged options are those under the overrides, but for the output location as it is given. -/
theorem get?_merged_of_load (hload : load w path requireInputs = .ok (.ok c))
    (hover : convertOverrides overrides (some c.baseDir) = .ok converted)
    (output : Option String) (key : String) :
    (putOutput (c.options.update converted) output).get? key =
      if key = outputDirKey ∧ output.getD "" ≠ "" then some (.str (output.getD ""))
      else c.overriddenOption overrides key := by
  rw [get?_putOutput, (get?_update_of_load hload hover key).1]

/-- The output location is a text, which need not be a normal path. -/
theorem holdsPaths_merged_of_load (hload : load w path requireInputs = .ok (.ok c))
    (hover : convertOverrides overrides (some c.baseDir) = .ok converted)
    (output : Option String) (key : String) (v : Json)
    (hv : (putOutput (c.options.update converted) output).get? key = some v) :
    HoldsPaths (fun _ => True) key v := by
  rw [get?_merged_of_load hload hover] at hv
  split_ifs at hv with houtput
  · obtain rfl := Option.some.inj hv
    obtain rfl := houtput.1
    exact ⟨fun _ _ => ⟨_, rfl, trivial⟩, fun hkey => absurd hkey (by decide)⟩
  · exact ((get?_update_of_load hload hover key).2 v hv).mono fun _ _ => trivial

/-- **Resolving merged options** once more changes nothing but the output location. -/
theorem get?_planned_of_load (hload : load w path requireInputs = .ok (.ok c))
    (hover : convertOverrides overrides (some c.baseDir) = .ok converted)
    (output : Option String) (cwd key : String) :
    (resolvePaths cwd (putOutput (c.options.update converted) output)).get? key =
      c.plannedOption overrides output cwd key := by
  rw [get?_resolvePaths, get?_merged_of_load hload hover, plannedOption]
  split_ifs with houtput
  · obtain rfl := houtput.1
    rw [Option.map_some, resolveValue_str (by decide)]
  · cases hget : c.overriddenOption overrides key with
    | none => rfl
    | some v =>
      have hholds := (get?_update_of_load hload hover key).2 v hget
      rw [Option.map_some, resolveValue_of_holdsPaths hholds]

/-- **The project document of a loaded configuration**, for any overrides that are accepted. -/
theorem projectDocument_of_load (hload : load w path requireInputs = .ok (.ok c))
    (hover : convertOverrides overrides (some c.baseDir) = .ok converted) {cwd : String}
    (hcwd : Path.isAbsolute cwd) (output : Option String) (files : List String)
    (processCwd : String) :
    ∃ options, merge c.options overrides output (some c.baseDir) = .ok options ∧
      let u := CompilationUnit.make files options c.baseDir (some c.path) cwd
      u.oddOption? = none ∧ ∃ planned pinned : Fields,
        planned.keys.Nodup ∧ pinned.keys.Nodup ∧
        (∀ key, planned.get? key = c.plannedOption overrides output cwd key) ∧
        (∀ key, pinned.get? key =
          if key = buildInfoKey ∧ keepsState planned ∧ ¬isSet planned buildInfoKey then
            some (.str (buildInfoStem processCwd planned c.path ++ ".tsbuildinfo"))
          else planned.get? key) ∧
        u.projectDocument processCwd =
          .obj [("compilerOptions", .obj pinned),
            ("files", .arr (files.map fun f => .str (Path.resolve cwd f))),
            ("include", .arr [])] := by
  obtain ⟨-, hkeys, -⟩ := holdsPaths_of_load hload
  let merged := putOutput (c.options.update converted) output
  have hmergedKeys : merged.keys.Nodup :=
    nodup_keys_putOutput (Fields.nodup_keys_update hkeys converted) output
  let u := CompilationUnit.make files merged c.baseDir (some c.path) cwd
  have hodd : u.oddOption? = none :=
    oddOption?_eq_none hmergedKeys hcwd (holdsPaths_merged_of_load hload hover output)
  have hplannedKeys : (resolvePaths cwd merged).keys.Nodup := by rwa [keys_resolvePaths]
  exact ⟨merged, merge_eq_ok hover, hodd, resolvePaths cwd merged, u.projectOptions processCwd,
    hplannedKeys, u.nodup_keys_projectOptions processCwd hmergedKeys,
    get?_planned_of_load hload hover output cwd,
    fun key => get?_projectOptions processCwd rfl key, rfl⟩

/-- A configuration that keeps incremental state. -/
def statefulProject : World :=
  { nodes := [(["tsconfig.json"], plainFile
      "\x7b\"files\": [], \"compilerOptions\": \x7b\"incremental\": true\x7d\x7d")] }

/-- An override with a path. -/
def sourceOverrides : Fields := [("rootDir", .str "../src")]

/-- The document of the configuration, under the override and with an output location. -/
theorem projectDocument_statefulProject : ∃ c converted,
    load statefulProject "/tsconfig.json" false = .ok (.ok c) ∧
      convertOverrides sourceOverrides (some c.baseDir) = .ok converted ∧
      Path.isAbsolute "/w" ∧
      ∃ options, merge c.options sourceOverrides (some "out") (some c.baseDir) = .ok options ∧
        let u := CompilationUnit.make ["x.ts"] options c.baseDir (some c.path) "/w"
        u.oddOption? = none ∧ ∃ planned pinned : Fields,
          planned.keys.Nodup ∧ pinned.keys.Nodup ∧
          (∀ key, planned.get? key = c.plannedOption sourceOverrides (some "out") "/w" key) ∧
          (∀ key, pinned.get? key =
            if key = buildInfoKey ∧ keepsState planned ∧ ¬isSet planned buildInfoKey then
              some (.str (buildInfoStem "/v" planned c.path ++ ".tsbuildinfo"))
            else planned.get? key) ∧
          u.projectDocument "/v" =
            .obj [("compilerOptions", .obj pinned), ("files", .arr [.str "/w/x.ts"]),
              ("include", .arr [])] := by
  have hbase : ((load statefulProject "/tsconfig.json" false).toOption.bind Except.toOption).map
      Config.baseDir = some "/" := by decide +kernel
  have hover : (convertOverrides sourceOverrides (some "/")).toOption.isSome := by
    decide +kernel
  have habsolute : Path.isAbsolute "/w" := by decide +kernel
  cases hload : load statefulProject "/tsconfig.json" false with
  | error fault => simp [hload, Except.toOption] at hbase
  | ok outcome =>
    cases outcome with
    | error failure => simp [hload, Except.toOption] at hbase
    | ok c =>
      rw [hload] at hbase
      rw [← Option.some.inj hbase] at hover
      cases hconverted : convertOverrides sourceOverrides (some c.baseDir) with
      | error failure => simp [hconverted, Except.toOption] at hover
      | ok converted =>
        have hdocument := projectDocument_of_load hload hconverted habsolute (some "out")
          ["x.ts"] "/v"
        exact ⟨c, converted, rfl, hconverted, habsolute, hdocument⟩

end Config

end TsProject

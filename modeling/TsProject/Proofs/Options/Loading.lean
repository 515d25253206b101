import TsProject.Proofs.Options.Paths

/-!
# Options as they are loaded

Loading options for a directory keeps every key and changes a value only by the rules of
`LoadsAs`: names of a choice and library names are put in lower case, and paths are resolved
against the directory. What comes back stands in the order of the table, settled and with normal
paths, and so it is what it is loaded as itself, whatever the directory: `load_spec`.
-/

namespace TsProject

open TsProject.Path (IsNormal)

/-! ### Kinds of keys -/

namespace OptionSpec

variable {key : String} {kind : OptionKind}

/-- An option has one kind. -/
theorem kind_unique {other : OptionKind} (h : (⟨key, kind⟩ : OptionSpec) ∈ all)
    (h' : (⟨key, other⟩ : OptionSpec) ∈ all) : kind = other :=
  congrArg OptionSpec.kind (List.inj_on_of_nodup_map nodup_names h h' rfl)

/-- The library names are the only list in lower case. -/
theorem name_eq_lib_iff : ∀ spec ∈ all, spec.name = "lib" ↔ spec.kind = .loweredTexts := by
  decide +kernel

theorem not_mem_pathNames (h : (⟨key, kind⟩ : OptionSpec) ∈ all) (hkind : kind ≠ .text) :
    key ∉ pathNames := fun hkey =>
  hkind (kind_unique h (mem_all_of_mem_pathNames key hkey))

theorem not_mem_pathListNames (h : (⟨key, kind⟩ : OptionSpec) ∈ all) (hkind : kind ≠ .texts) :
    key ∉ pathListNames := fun hkey =>
  hkind (kind_unique h (mem_all_of_mem_pathListNames key hkey))

end OptionSpec

namespace CompilerOptions

/-! ### Values -/

/-- **What loading makes of a value** of an option, for a directory. -/
inductive LoadsAs (base key : String) : Json → Json → Prop
  | name {names : List String} (h : (⟨key, .choice names⟩ : OptionSpec) ∈ OptionSpec.all)
      (s : String) : LoadsAs base key (.str s) (.str (Text.lower s))
  | libs (h : key = "lib") (ss : List String) :
      LoadsAs base key (.arr (ss.map .str)) (.arr ((ss.map Text.lower).map .str))
  | path (h : key ∈ OptionSpec.pathNames) (s : String) :
      LoadsAs base key (.str s) (.str (Path.normalize (Path.join base s)))
  | paths (h : key ∈ OptionSpec.pathListNames) (ss : List String) :
      LoadsAs base key (.arr (ss.map .str))
        (.arr ((ss.map fun s => Path.normalize (Path.join base s)).map .str))
  | null : LoadsAs base key .null .null
  | other (hname : ∀ names, (⟨key, .choice names⟩ : OptionSpec) ∉ OptionSpec.all)
      (hlibs : key ≠ "lib") (hpath : key ∉ OptionSpec.pathNames)
      (hpaths : key ∉ OptionSpec.pathListNames) (v : Json) : LoadsAs base key v v

variable {base key : String}

/-- Paths are texts or lists of texts. -/
theorem resolveValue_of_kind {kind : OptionKind}
    (hspec : (⟨key, kind⟩ : OptionSpec) ∈ OptionSpec.all) (htext : kind ≠ .text)
    (htexts : kind ≠ .texts) (v : Json) : resolveValue base key v = v :=
  resolveValue_of_not_mem (OptionSpec.not_mem_pathNames hspec htext)
    (OptionSpec.not_mem_pathListNames hspec htexts) base v

/-- A value that is neither put in lower case nor a path stays as it is. -/
theorem loadsAs_settle {kind : OptionKind} (hspec : (⟨key, kind⟩ : OptionSpec) ∈ OptionSpec.all)
    (hname : ∀ names, kind ≠ .choice names) (hlibs : kind ≠ .loweredTexts)
    (hpath : key ∉ OptionSpec.pathNames) (hpaths : key ∉ OptionSpec.pathListNames) (v : Json) :
    LoadsAs base key v (resolveValue base key (kind.settle v)) := by
  have hsettle : kind.settle v = v := by
    cases kind with
    | choice names => exact absurd rfl (hname names)
    | loweredTexts => exact absurd rfl hlibs
    | _ => rfl
  rw [hsettle, resolveValue_of_not_mem hpath hpaths]
  refine .other (fun names h => hname names (OptionSpec.kind_unique hspec h)) ?_ hpath hpaths v
  exact fun hkey => hlibs ((OptionSpec.name_eq_lib_iff _ hspec).mp hkey)

/-- **Every accepted value** is loaded by the rules. -/
theorem loadsAs_of_isOption {v : Json} (h : IsOption key v) :
    LoadsAs base key v (resolveValue base key (settledValue key v)) := by
  obtain ⟨⟨name, kind⟩, hspec, rfl, hadmits⟩ := h
  have hsettled : settledValue name v = kind.settle v := settledValue_of_mem hspec v
  rw [hsettled]
  cases hadmits with
  | null =>
    have hnull : kind.settle .null = .null := by cases kind <;> rfl
    rw [hnull, resolveValue_null]
    exact .null
  | choice hmem =>
    rw [resolveValue_of_kind hspec (by simp) (by simp)]
    exact .name hspec _
  | loweredTexts ss =>
    rw [resolveValue_of_kind hspec (by simp) (by simp), OptionKind.settle,
      OptionKind.map_lowerText_map_str]
    exact .libs ((OptionSpec.name_eq_lib_iff _ hspec).mpr rfl) ss
  | text s =>
    by_cases hpath : name ∈ OptionSpec.pathNames
    · have hvalue : resolveValue base name (OptionKind.text.settle (.str s)) =
          .str (Path.resolve base s) := resolveValue_str hpath base s
      rw [hvalue]
      exact .path hpath s
    · have hpaths := OptionSpec.not_mem_pathListNames hspec (by simp)
      exact loadsAs_settle hspec (by simp) (by simp) hpath hpaths _
  | texts ss =>
    by_cases hpaths : name ∈ OptionSpec.pathListNames
    · have hvalue : resolveValue base name (OptionKind.texts.settle (.arr (ss.map .str))) =
          .arr ((ss.map (Path.resolve base)).map .str) := resolveValue_arr hpaths base ss
      rw [hvalue]
      exact .paths hpaths ss
    · have hpath := OptionSpec.not_mem_pathNames hspec (by simp)
      exact loadsAs_settle hspec (by simp) (by simp) hpath hpaths _
  | boolean b | number n | mapping targets | objects members =>
    have hpath := OptionSpec.not_mem_pathNames hspec (by simp)
    have hpaths := OptionSpec.not_mem_pathListNames hspec (by simp)
    exact loadsAs_settle hspec (by simp) (by simp) hpath hpaths _

/-! ### Loading again -/

variable {raw options : Fields}

theorem get?_resolvePaths_of_check (h : check raw = .ok options) (base key : String) :
    (resolvePaths base options).get? key =
      (raw.get? key).map fun v => resolveValue base key (settledValue key v) := by
  rw [get?_resolvePaths, get?_of_check h, Option.map_map]
  rfl

/-- Accepted options are settled also when their paths have been resolved. -/
theorem isSettled_resolvePaths (h : check raw = .ok options) {key : String} {v : Json}
    (hv : (resolvePaths base options).get? key = some v) : IsSettled key v := by
  rw [get?_resolvePaths] at hv
  obtain ⟨settled, hsettled, rfl⟩ := Option.map_eq_some_iff.mp hv
  exact (isSettled_of_check h hsettled).resolveValue base

/-- **Accepted options with resolved paths** are accepted as they stand: they are settled and in
the order of the table. -/
theorem check_resolvePaths (h : check raw = .ok options) (base : String) :
    check (resolvePaths base options) = .ok (resolvePaths base options) := by
  have hsettled : ∀ key v, (resolvePaths base options).get? key = some v → IsSettled key v :=
    fun key v => isSettled_resolvePaths h
  rw [(check_of_isSettled hsettled).1]
  obtain ⟨-, rfl⟩ := check_eq_ok_iff.mp h
  have hloaded : resolvePaths base (settle raw) = OptionSpec.all.filterMap fun spec =>
      (raw.get? spec.name).map fun v =>
        (spec.name, resolveValue base spec.name (spec.kind.settle v)) := by
    rw [resolvePaths, settle, List.map_filterMap]
    simp only [Option.map_map, Function.comp_def]
  -- settling goes through the table in the same way, and changes no value any more
  refine congrArg Except.ok (Eq.trans (List.filterMap_congr fun spec hspec => ?_) hloaded.symm)
  have hget := get?_resolvePaths_of_check h base spec.name
  cases hraw : raw.get? spec.name with
  | none =>
    rw [hget, hraw]
    rfl
  | some v =>
    rw [hraw, Option.map_some, settledValue_of_mem hspec] at hget
    have hsame := (hsettled spec.name _ hget).settled
    rw [settledValue_of_mem hspec] at hsame
    rw [hget, Option.map_some, Option.map_some, hsame]

/-- Normal paths stay as they are, whatever they are resolved against. -/
theorem resolvePaths_of_holdsPaths (hkeys : options.keys.Nodup)
    (h : ∀ key v, options.get? key = some v → HoldsPaths IsNormal key v) (base : String) :
    resolvePaths base options = options := by
  refine (List.map_congr_left fun (key, v) hmem => ?_).trans (List.map_id options)
  have hpaths := h key v (Fields.get?_of_mem hkeys hmem)
  exact congrArg (Prod.mk key) (resolveValue_of_holdsPaths hpaths base)

/-- **Loading options**, specified. Accepted options are loaded with the same keys, each value by
the rules, and what is loaded is accepted as it stands and loaded as itself for any directory. -/
theorem load_spec (h : check raw = .ok options) (hbase : Path.isAbsolute base) :
    ∃ loaded, load (some base) raw = .ok loaded ∧ loaded.keys.Nodup ∧
      (∀ key, key ∈ loaded.keys ↔ key ∈ raw.keys) ∧
      (∀ key v, raw.get? key = some v →
        ∃ v', loaded.get? key = some v' ∧ LoadsAs base key v v') ∧
      check loaded = .ok loaded ∧ ∀ other, load (some other) loaded = .ok loaded := by
  have hload : load (some base) raw = .ok (resolvePaths base options) :=
    load_some_eq_ok_iff.mpr ⟨options, h, rfl⟩
  have hkeys : (resolvePaths base options).keys.Nodup := by
    rw [keys_resolvePaths]
    exact nodup_keys_of_check h
  have hagain := check_resolvePaths h base
  refine ⟨_, hload, hkeys, ?_, ?_, hagain, ?_⟩
  · intro key
    rw [Fields.mem_keys_iff, Fields.mem_keys_iff, get?_resolvePaths_of_check h,
      Option.isSome_map]
  · intro key v hv
    have hoption : IsOption key v :=
      problems_eq_nil_iff.mp (check_eq_ok_iff.mp h).1 key v hv
    rw [get?_resolvePaths_of_check h, hv]
    exact ⟨_, rfl, loadsAs_of_isOption hoption⟩
  · intro other
    have hgiven : ∀ key v, options.get? key = some v → HoldsPaths (fun _ => True) key v :=
      fun key v hv => HoldsPaths.of_isOption (isSettled_of_check h hv).isOption
    have hpaths := holdsPaths_resolvePaths hgiven hbase
    exact load_some_eq_ok_iff.mpr ⟨_, hagain, resolvePaths_of_holdsPaths hkeys hpaths other⟩

/-- Options of several kinds, in another order than that of the table. -/
def mixedOptions : Fields :=
  [("outDir", .str "../out//x/"), ("target", .str "ES2020"), ("strict", .null),
    ("lib", .arr [.str "DOM", .str "ES2020"]), ("rootDirs", .arr [.str "src/..", .str "//r/./s"]),
    ("types", .arr [.str "Node"])]

/-- The options are accepted and loaded, and once loaded they are what they are loaded as. -/
theorem load_mixedOptions :
    check mixedOptions = .ok (settle mixedOptions) ∧ Path.isAbsolute "/p/q" ∧
      ∃ loaded, load (some "/p/q") mixedOptions = .ok loaded ∧
        (∃ v, loaded.get? "outDir" = some v ∧ LoadsAs "/p/q" "outDir" (.str "../out//x/") v) ∧
        check loaded = .ok loaded ∧ ∀ other, load (some other) loaded = .ok loaded := by
  have hproblems : problems mixedOptions = [] := by decide +kernel
  have hcheck : check mixedOptions = .ok (settle mixedOptions) :=
    check_eq_ok_iff.mpr ⟨hproblems, rfl⟩
  have hbase : Path.isAbsolute "/p/q" := by decide
  obtain ⟨loaded, hload, -, -, hvalues, hagain⟩ := load_spec hcheck hbase
  exact ⟨hcheck, hbase, loaded, hload, hvalues "outDir" _ rfl, hagain⟩

end CompilerOptions

end TsProject

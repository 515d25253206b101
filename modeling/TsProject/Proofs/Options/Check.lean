import TsProject.Options.Check
import TsProject.Proofs.Json.Fields

/-!
# Accepted options

Options that are accepted come back once each (`nodup_keys_settle`), each with its value settled
(`get?_of_check`), and loading them for a directory only changes values, key by key
(`get?_resolvePaths`). Options that are rejected have a problem.
-/

namespace TsProject

/-- No option stands in the table twice. -/
theorem OptionSpec.nodup_names : OptionSpec.names.Nodup := by decide +kernel

/-- **The option of a name** is the one of the table with that name. -/
theorem OptionSpec.find?_eq_some_iff {key : String} {spec : OptionSpec} :
    OptionSpec.find? key = some spec ↔ spec ∈ OptionSpec.all ∧ spec.name = key := by
  constructor
  · intro h
    exact ⟨List.mem_of_find?_eq_some h, by simpa using List.find?_some h⟩
  · rintro ⟨hspec, rfl⟩
    obtain ⟨other, hother⟩ : ∃ other, OptionSpec.find? spec.name = some other :=
      Option.isSome_iff_exists.mp (List.find?_isSome.mpr ⟨spec, hspec, by simp⟩)
    have hname : other.name = spec.name := by simpa using List.find?_some hother
    have hmem : other ∈ OptionSpec.all := List.mem_of_find?_eq_some hother
    rw [hother, List.inj_on_of_nodup_map OptionSpec.nodup_names hmem hspec hname]

namespace CompilerOptions

/-- **Accepted options**: there is no problem with them, and they are settled. -/
theorem check_eq_ok_iff {raw options : Fields} :
    check raw = .ok options ↔ problems raw = [] ∧ settle raw = options := by
  rw [check]
  split
  · rename_i hnone
    simp [hnone]
  · rename_i hsome
    simpa using fun h => absurd h hsome

theorem ne_nil_of_check_eq_error {raw : Fields} {found : List OptionProblem}
    (h : check raw = .error found) : found ≠ [] := by
  rw [check] at h
  split at h
  · cases h
  · rename_i hsome
    rintro rfl
    exact hsome (Except.error.inj h)

theorem keys_filterMap_sublist (raw : Fields) (specs : List OptionSpec) :
    (Fields.keys (specs.filterMap fun spec =>
      (raw.get? spec.name).map fun v => (spec.name, spec.kind.settle v))).Sublist
        (specs.map (·.name)) := by
  induction specs with
  | nil => exact List.Sublist.refl _
  | cons spec specs ih =>
    rw [List.filterMap_cons, List.map_cons]
    cases raw.get? spec.name with
    | none => exact ih.cons _
    | some v => exact ih.cons_cons _

/-- **Accepted options come back once each.** -/
theorem nodup_keys_settle (raw : Fields) : (settle raw).keys.Nodup :=
  (keys_filterMap_sublist raw OptionSpec.all).nodup OptionSpec.nodup_names

/-- A value as an option of the table takes it. -/
def settledValue (key : String) (v : Json) : Json :=
  match OptionSpec.find? key with
  | some spec => spec.kind.settle v
  | none => v

theorem get?_settle (raw : Fields) (key : String) :
    (settle raw).get? key =
      (OptionSpec.find? key).bind fun spec => (raw.get? key).map spec.kind.settle := by
  have htable : ∀ specs : List OptionSpec,
      Fields.get? key (specs.filterMap fun spec =>
        (raw.get? spec.name).map fun v => (spec.name, spec.kind.settle v)) =
          (specs.find? (·.name = key)).bind fun spec => (raw.get? key).map spec.kind.settle := by
    intro specs
    induction specs with
    | nil => rfl
    | cons spec specs ih =>
      by_cases hkey : spec.name = key
      · subst hkey
        cases hraw : raw.get? spec.name with
        | none => simpa [hraw] using ih
        | some v => simp [hraw]
      · cases hraw : raw.get? spec.name <;> simp [hraw, hkey, ih]
  exact htable OptionSpec.all

/-- **Every accepted value comes back settled.** -/
theorem get?_of_check {raw options : Fields} (h : check raw = .ok options) (key : String) :
    options.get? key = (raw.get? key).map (settledValue key) := by
  obtain ⟨hproblems, rfl⟩ := check_eq_ok_iff.mp h
  rw [get?_settle]
  cases hraw : raw.get? key with
  | none => cases OptionSpec.find? key <;> rfl
  | some v =>
    -- a key without an option is a problem
    have hmem : key ∈ raw.keys := by rw [Fields.mem_keys_iff, hraw, Option.isSome_some]
    have hunknown : unknownProblems raw = [] := (List.append_eq_nil_iff.mp hproblems).2
    have hfind : ¬(OptionSpec.find? key).isNone :=
      List.filter_eq_nil_iff.mp (List.map_eq_nil_iff.mp hunknown) key hmem
    cases hspec : OptionSpec.find? key with
    | none => exact absurd (hspec ▸ rfl) hfind
    | some spec => simp [settledValue, hspec]

/-- An accepted value has no faults. -/
theorem faults_of_check {raw options : Fields} (h : check raw = .ok options) {spec : OptionSpec}
    (hspec : spec ∈ OptionSpec.all) {v : Json} (hraw : raw.get? spec.name = some v) :
    spec.kind.faults (spec.kind.settle v) = [] := by
  obtain ⟨hproblems, -⟩ := check_eq_ok_iff.mp h
  have hvalues : valueProblems raw = [] := (List.append_eq_nil_iff.mp hproblems).1
  have hnone := List.flatMap_eq_nil_iff.mp hvalues spec hspec
  rw [hraw] at hnone
  exact List.map_eq_nil_iff.mp hnone

/-- **Options loaded for a directory**: those accepted, with the paths among them resolved. -/
theorem load_some_eq_ok_iff {base : String} {raw loaded : Fields} :
    load (some base) raw = .ok loaded ↔
      ∃ options, check raw = .ok options ∧ resolvePaths base options = loaded := by
  rw [load]
  cases check raw <;> simp [Except.map]

theorem ne_nil_of_load_eq_error {base? : Option String} {raw : Fields}
    {found : List OptionProblem} (h : load base? raw = .error found) : found ≠ [] := by
  rw [load] at h
  cases hcheck : check raw with
  | ok options => simp [hcheck, Except.map] at h
  | error problems =>
    obtain rfl : problems = found := by simpa [hcheck, Except.map] using h
    exact ne_nil_of_check_eq_error hcheck

theorem get?_resolvePaths (base : String) (options : Fields) (key : String) :
    (resolvePaths base options).get? key = (options.get? key).map (resolveValue base key) :=
  Fields.get?_map_value (resolveValue base) options key

theorem keys_resolvePaths (base : String) (options : Fields) :
    (resolvePaths base options).keys = options.keys :=
  Fields.keys_map_value (resolveValue base) options

theorem nodup_keys_of_check {raw options : Fields} (h : check raw = .ok options) :
    options.keys.Nodup :=
  (check_eq_ok_iff.mp h).2 ▸ nodup_keys_settle raw

end CompilerOptions

end TsProject

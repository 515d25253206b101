import TsProject.Merge
import TsProject.Proofs.Options.Kinds

/-!
# Overrides key by key

Overrides are checked and converted one by one: whether one of them is rejected, and what it is
converted to, does not depend on the others (`isRejected_iff`, `convertOverrides_single`). A merge
is therefore known by the value of every key, which comes from one tier (`ComesFrom`), and two
sets of overrides may as well be put in one after the other. In memory a merge adds a map and
changes that one only (`run_mergeIn`). All this is gathered in `merge_update`.
-/

namespace TsProject

/-! ### First members -/

/-- What comes first of many lists comes from the first of them that is not empty. -/
theorem exists_of_flatMap_eq_cons {α β : Type} {f : α → List β} {xs : List α} {y : β}
    {ys : List β} (h : xs.flatMap f = y :: ys) : ∃ before x after,
      xs = before ++ x :: after ∧ (∀ b ∈ before, f b = []) ∧ y ∈ f x := by
  induction xs with
  | nil => cases h
  | cons x xs ih =>
    rw [List.flatMap_cons] at h
    cases hx : f x with
    | nil =>
      rw [hx, List.nil_append] at h
      obtain ⟨before, z, after, rfl, hbefore, hz⟩ := ih h
      exact ⟨x :: before, z, after, rfl, List.forall_mem_cons.mpr ⟨hx, hbefore⟩, hz⟩
    | cons first rest =>
      rw [hx, List.cons_append] at h
      obtain rfl := (List.cons.inj h).1
      exact ⟨[], x, xs, rfl, by simp, hx ▸ List.mem_cons_self⟩

namespace CompilerOptions

variable {raw overrides converted : Fields} {base? : Option String} {e : OverrideError}

/-- An option of the table without problems has a value of its kind. -/
theorem isOption_of_faults_eq_nil {spec : OptionSpec} (hspec : spec ∈ OptionSpec.all) {v : Json}
    (h : spec.kind.faults (spec.kind.settle v) = []) : IsOption spec.name v :=
  (isOption_iff hspec).mpr (OptionKind.faults_settle_eq_nil_iff.mp h)

/-- **The first problem** is that of the first key, in the order of the table and then in that of
the fields, that is not an option with its value. -/
theorem exists_of_problems_eq_cons {p : OptionProblem} {rest : List OptionProblem}
    (h : problems raw = p :: rest) : ∃ before after,
      OptionSpec.names ++ raw.keys = before ++ p.key :: after ∧
        ∀ key ∈ before, ∀ v, raw.get? key = some v → IsOption key v := by
  rw [problems] at h
  cases hvalues : valueProblems raw with
  | cons q others =>
    rw [hvalues, List.cons_append] at h
    obtain rfl := (List.cons.inj h).1
    obtain ⟨before, spec, after, hall, hbefore, hq⟩ := exists_of_flatMap_eq_cons hvalues
    have hkey : q.key = spec.name := by
      cases hraw : raw.get? spec.name with
      | none => simp [hraw] at hq
      | some v =>
        rw [hraw] at hq
        obtain ⟨fault, -, rfl⟩ := List.mem_map.mp hq
        rfl
    refine ⟨before.map (·.name), after.map (·.name) ++ raw.keys, ?_, ?_⟩
    · simp [OptionSpec.names, hall, hkey]
    · intro key hmem v hv
      obtain ⟨other, hother, rfl⟩ := List.mem_map.mp hmem
      have hnone := hbefore other hother
      rw [hv] at hnone
      exact isOption_of_faults_eq_nil (by simp [hall, hother]) (List.map_eq_nil_iff.mp hnone)
  | nil =>
    rw [hvalues, List.nil_append, unknownProblems, List.map_eq_cons_iff] at h
    obtain ⟨key, more, hfilter, rfl, -⟩ := h
    obtain ⟨known, others, hkeys, hknown, -⟩ := List.filter_eq_cons_iff.mp hfilter
    refine ⟨OptionSpec.names ++ known, others, by simp [hkeys], ?_⟩
    intro other hmem v hv
    by_contra hnot
    obtain ⟨q, hq, hqkey⟩ := exists_problem_iff.mpr ⟨v, hv, hnot⟩
    rw [problems, hvalues, List.nil_append] at hq
    -- all that is wrong are keys outside the table, and this one is none of them
    obtain ⟨hunknown, -⟩ := exists_unknownProblem_iff.mp ⟨q, hq, hqkey⟩
    rcases List.mem_append.mp hmem with hname | hbefore
    · obtain ⟨spec, hspec, hname⟩ := List.mem_map.mp hname
      exact hunknown spec hspec hname
    · refine hknown other hbefore ?_
      simpa [OptionSpec.find?] using hunknown

/-! ### One override -/

/-- **An override that is rejected** on its own. -/
def IsRejected (base? : Option String) (key : String) (v : Json) : Prop :=
  ∃ e, convertOverrides [(key, v)] base? = .error e

/-- An override as it is put in: settled, and resolved where a directory is given. -/
def overrideValue (base? : Option String) (key : String) (v : Json) : Json :=
  match base? with
  | none => settledValue key v
  | some base => resolveValue base key (settledValue key v)

/-- **Rejected overrides** have problems, and the key of the first of them is reported. -/
theorem of_convertOverrides_eq_error (h : convertOverrides overrides base? = .error e) :
    e.problems = problems overrides ∧ ∃ p rest, e.problems = p :: rest ∧ e.key = p.key := by
  rw [convertOverrides, load, check] at h
  split at h
  · cases h
  · rename_i hsome
    obtain rfl := Except.error.inj h
    cases hproblems : problems overrides with
    | nil => exact absurd hproblems hsome
    | cons p rest => exact ⟨rfl, p, rest, rfl, rfl⟩

/-- **Overrides are accepted** exactly if all of them are options. -/
theorem exists_convertOverrides_iff :
    (∃ converted, convertOverrides overrides base? = .ok converted) ↔
      ∀ key v, overrides.get? key = some v → IsOption key v := by
  have hnil : (∃ converted, convertOverrides overrides base? = .ok converted) ↔
      problems overrides = [] := by
    rw [convertOverrides, load, check]
    split
    · rename_i hnone
      exact iff_of_true ⟨_, rfl⟩ hnone
    · rename_i hsome
      refine iff_of_false ?_ hsome
      rintro ⟨converted, h⟩
      cases h
  rw [hnil, problems_eq_nil_iff]

theorem exists_convertOverrides_or (overrides : Fields) (base? : Option String) :
    (∃ converted, convertOverrides overrides base? = .ok converted) ∨
      ∃ e, convertOverrides overrides base? = .error e := by
  cases convertOverrides overrides base? with
  | ok converted => exact .inl ⟨converted, rfl⟩
  | error e => exact .inr ⟨e, rfl⟩

/-- **One override** is rejected exactly if it is no option. -/
theorem isRejected_iff {key : String} {v : Json} : IsRejected base? key v ↔ ¬IsOption key v := by
  have haccepted : (∃ converted, convertOverrides [(key, v)] base? = .ok converted) ↔
      IsOption key v := by
    rw [exists_convertOverrides_iff]
    constructor
    · exact fun h => h key v (by simp)
    · intro h other value hget
      rw [Fields.get?_cons] at hget
      split_ifs at hget with hkey
      · exact hkey ▸ Option.some.inj hget ▸ h
      · cases hget
  rw [← haccepted, IsRejected]
  rcases exists_convertOverrides_or [(key, v)] base? with ⟨converted, h⟩ | ⟨e, h⟩ <;> simp [h]

/-- **Accepted overrides** come back once each, every one as it is put in. -/
theorem get?_of_convertOverrides (h : convertOverrides overrides base? = .ok converted) :
    converted.keys.Nodup ∧
      ∀ key, converted.get? key = (overrides.get? key).map (overrideValue base? key) := by
  rw [convertOverrides, load] at h
  cases hcheck : check overrides with
  | error problems => simp [hcheck, Except.map, Except.mapError] at h
  | ok options =>
    rw [hcheck] at h
    obtain rfl := Except.ok.inj h
    have hkeys := nodup_keys_of_check hcheck
    cases base? with
    | none => exact ⟨hkeys, get?_of_check hcheck⟩
    | some base =>
      refine ⟨(keys_resolvePaths base options).symm ▸ hkeys, fun key => ?_⟩
      change (resolvePaths base options).get? key = _
      rw [get?_resolvePaths, get?_of_check hcheck, Option.map_map]
      rfl

/-- **One override** is converted to the value that it is put in as. -/
theorem convertOverrides_single {key : String} {v : Json} (h : IsOption key v) :
    convertOverrides [(key, v)] base? = .ok [(key, overrideValue base? key v)] := by
  rcases exists_convertOverrides_or [(key, v)] base? with ⟨converted, hconverted⟩ | hrejected
  · obtain ⟨hkeys, hget⟩ := get?_of_convertOverrides hconverted
    have hperm : converted.Perm [(key, overrideValue base? key v)] := by
      refine Fields.perm_of_get? hkeys (List.nodup_singleton _) fun other => ?_
      rw [hget, Fields.get?_cons, Fields.get?_cons]
      split_ifs with hkey
      · rw [← hkey]
        rfl
      · rfl
    rw [hconverted, List.perm_singleton.mp hperm]
  · exact absurd h (isRejected_iff.mp hrejected)

/-! ### Merging -/

theorem get?_putOutput (options : Fields) (output : Option String) (key : String) :
    (putOutput options output).get? key =
      if key = outputDirKey ∧ output.getD "" ≠ "" then some (.str (output.getD ""))
      else options.get? key := by
  cases output with
  | none => simp [putOutput]
  | some location =>
    by_cases hempty : location = "" <;> simp [putOutput, hempty, Fields.get?_set]

theorem nodup_keys_putOutput {options : Fields} (h : options.keys.Nodup)
    (output : Option String) : (putOutput options output).keys.Nodup := by
  cases output with
  | none => exact h
  | some location =>
    rw [putOutput]
    split_ifs
    · exact h
    · exact Fields.nodup_keys_set h _ _

/-- **The tiers of a merge**: an override beats the configuration. -/
theorem merge_eq_ok {base overrides converted : Fields} {output base? : Option String}
    (h : convertOverrides overrides base? = .ok converted) :
    merge base overrides output base? = .ok (putOutput (base.update converted) output) := by
  rw [merge, h]
  rfl

/-- Merged options are those of the configuration under accepted overrides. -/
theorem exists_converted_of_merge {base result : Fields} {output : Option String}
    (h : merge base overrides output base? = .ok result) :
    ∃ converted, convertOverrides overrides base? = .ok converted ∧
      result = putOutput (base.update converted) output := by
  rcases exists_convertOverrides_or overrides base? with ⟨converted, hconverted⟩ | ⟨e, hrejected⟩
  · exact ⟨converted, hconverted, Except.ok.inj (h.symm.trans (merge_eq_ok hconverted))⟩
  · rw [merge, hrejected] at h
    cases h

/-- **The value of every key** of merged options. -/
theorem get?_of_merge {base result : Fields} {output : Option String}
    (h : merge base overrides output base? = .ok result) (key : String) :
    result.get? key =
      if key = outputDirKey ∧ output.getD "" ≠ "" then some (.str (output.getD ""))
      else ((overrides.get? key).map (overrideValue base? key) <|> base.get? key) := by
  obtain ⟨converted, hconverted, rfl⟩ := exists_converted_of_merge h
  obtain ⟨hkeys, hget⟩ := get?_of_convertOverrides hconverted
  rw [get?_putOutput, Fields.get?_update, Fields.get?_ofMembers hkeys, hget]

/-- **The tier that the value of a key comes from**: the output location, which is not empty, for
the output directory; or else an override, as it is put in on its own; or else the options of the
configuration. -/
inductive ComesFrom (base overrides : Fields) (output base? : Option String) (key : String) :
    Option Json → Prop
  | output {location : String} : output = some location → location ≠ "" → key = outputDirKey →
      ComesFrom base overrides output base? key (some (.str location))
  | override {v value : Json} : ¬(key = outputDirKey ∧ output.getD "" ≠ "") →
    overrides.get? key = some v → convertOverrides [(key, v)] base? = .ok [(key, value)] →
      ComesFrom base overrides output base? key (some value)
  | base : ¬(key = outputDirKey ∧ output.getD "" ≠ "") → overrides.get? key = none →
      ComesFrom base overrides output base? key (base.get? key)

/-- **Every key comes from one tier.** -/
theorem comesFrom_of_merge {base result : Fields} {output : Option String}
    (h : merge base overrides output base? = .ok result) (key : String) :
    ComesFrom base overrides output base? key (result.get? key) := by
  rw [get?_of_merge h]
  split_ifs with houtput
  · obtain ⟨hkey, hlocation⟩ := houtput
    cases output with
    | none => exact absurd rfl hlocation
    | some location => exact .output rfl hlocation hkey
  · cases hget : overrides.get? key with
    | none => exact .base houtput hget
    | some v =>
      obtain ⟨converted, hconverted, -⟩ := exists_converted_of_merge h
      have hoption := exists_convertOverrides_iff.mp ⟨_, hconverted⟩ key v hget
      exact .override houtput hget (convertOverrides_single hoption)

/-! ### Merging twice -/

/-- **Overrides on top of others** are accepted where both are. -/
theorem exists_convertOverrides_update {first second : Fields} (hkeys : second.keys.Nodup)
    (hfirst : ∃ converted, convertOverrides first base? = .ok converted)
    (hsecond : ∃ converted, convertOverrides second base? = .ok converted) :
    ∃ converted, convertOverrides (first.update second) base? = .ok converted := by
  rw [exists_convertOverrides_iff] at hfirst hsecond ⊢
  intro key v hget
  rw [Fields.get?_update, Fields.get?_ofMembers hkeys] at hget
  cases hnew : second.get? key with
  | none =>
    rw [hnew] at hget
    exact hfirst key v hget
  | some value =>
    rw [hnew] at hget
    exact Option.some.inj hget ▸ hsecond key value hnew

/-- **Merging once or twice** gives the same value to every key. -/
theorem get?_merge_update {base first second once between twice : Fields} {output : Option String}
    (hkeys : second.keys.Nodup)
    (honce : merge base (first.update second) output base? = .ok once)
    (hbetween : merge base first none base? = .ok between)
    (htwice : merge between second output base? = .ok twice) (key : String) :
    once.get? key = twice.get? key := by
  rw [get?_of_merge honce, get?_of_merge htwice, get?_of_merge hbetween, Fields.get?_update,
    Fields.get?_ofMembers hkeys]
  cases second.get? key <;> simp

/-! ### Merging in memory -/

theorem read?_add_of_some {s : OptionStore} {ref : Nat} {options : Fields} (added : Fields)
    (h : s.read? ref = some options) : (s.add added).read? ref = some options := by
  obtain ⟨hbound, -⟩ := List.getElem?_eq_some_iff.mp h
  rw [OptionStore.read?, OptionStore.add, List.getElem?_append_left hbound]
  exact h

theorem read?_add_length (s : OptionStore) (added : Fields) :
    (s.add added).read? s.maps.length = some added := by
  rw [OptionStore.read?, OptionStore.add, List.getElem?_concat_length]

theorem change_add (s : OptionStore) (added : Fields) (f : Fields → Fields) :
    (s.add added).change s.maps.length f = s.add (f added) := by
  rw [OptionStore.change, OptionStore.add, OptionStore.add]
  congr 1
  rw [List.modify_eq_take_drop]
  simp

/-- **A merge in memory** adds a map to those that are there and changes none of them. -/
theorem run_mergeIn {s : OptionStore} {ref : Nat} {base : Fields} (h : s.read? ref = some base)
    (overrides : Fields) (output base? : Option String) :
    (mergeIn ref overrides output base?).run s =
      match merge base overrides output base? with
      | .ok result => (.ok s.maps.length, s.add result)
      | .error e => (.error e, s.add base) := by
  have hcopied : s.add ((s.read? ref).getD []) = s.add base := by rw [h, Option.getD_some]
  rw [merge]
  rcases exists_convertOverrides_or overrides base? with ⟨converted, hconverted⟩ | ⟨e, hrejected⟩
  · rw [hconverted]
    have hput : s.add (putOutput (base.update converted) output) =
        ((s.add base).change s.maps.length (·.update converted)).change s.maps.length
          (putOutput · output) := by
      rw [change_add, change_add]
    change _ = (Except.ok s.maps.length, s.add (putOutput (base.update converted) output))
    rw [hput, ← hcopied, mergeIn, hconverted]
    rfl
  · rw [hrejected, mergeIn, hrejected, ← hcopied]
    rfl

/-! ### The laws of overrides -/

/-- **Which overrides are rejected**, and what is reported of them. -/
structure RejectsEntries (overrides : Fields) (base? : Option String) : Prop where
  /-- Overrides are rejected exactly if one of them is. -/
  rejects : (∃ e, convertOverrides overrides base? = .error e) ↔
    ∃ key v, (key, v) ∈ overrides ∧ IsRejected base? key v
  /-- There are problems with those that are rejected, and with no others. -/
  reports : ∀ e, convertOverrides overrides base? = .error e → ∀ key,
    (∃ p ∈ e.problems, p.key = key) ↔ ∃ v, (key, v) ∈ overrides ∧ IsRejected base? key v
  /-- The key of the error is that of its first problem. -/
  first : ∀ e, convertOverrides overrides base? = .error e →
    (e.problems.map (·.key)).head? = some e.key
  /-- It is the first that is rejected, in the order of the table and then in that given. -/
  inOrder : ∀ e, convertOverrides overrides base? = .error e → ∃ before after,
    OptionSpec.names ++ overrides.keys = before ++ e.key :: after ∧
      ∀ key ∈ before, ∀ v, (key, v) ∈ overrides → ¬IsRejected base? key v

theorem rejectsEntries {overrides : Fields} (hkeys : overrides.keys.Nodup)
    (base? : Option String) : RejectsEntries overrides base? where
  rejects := by
    have hmem : (∃ key v, (key, v) ∈ overrides ∧ IsRejected base? key v) ↔
        ¬∀ key v, overrides.get? key = some v → IsOption key v := by
      simp only [isRejected_iff, not_forall, exists_prop]
      constructor
      · rintro ⟨key, v, hmem, hnot⟩
        exact ⟨key, v, Fields.get?_of_mem hkeys hmem, hnot⟩
      · rintro ⟨key, v, hget, hnot⟩
        exact ⟨key, v, Fields.mem_of_get? hget, hnot⟩
    have haccepted : (∃ converted, convertOverrides overrides base? = .ok converted) ↔
        ∀ key v, overrides.get? key = some v → IsOption key v := exists_convertOverrides_iff
    rw [hmem, ← haccepted]
    cases convertOverrides overrides base? <;> simp
  reports e he key := by
    obtain ⟨hproblems, -⟩ := of_convertOverrides_eq_error he
    rw [hproblems, exists_problem_iff]
    constructor
    · rintro ⟨v, hget, hnot⟩
      exact ⟨v, Fields.mem_of_get? hget, isRejected_iff.mpr hnot⟩
    · rintro ⟨v, hmem, hrejected⟩
      exact ⟨v, Fields.get?_of_mem hkeys hmem, isRejected_iff.mp hrejected⟩
  first e he := by
    obtain ⟨-, p, rest, hproblems, hkey⟩ := of_convertOverrides_eq_error he
    rw [hproblems, hkey]
    rfl
  inOrder e he := by
    obtain ⟨hproblems, p, rest, hcons, hkey⟩ := of_convertOverrides_eq_error he
    obtain ⟨before, after, hnames, hbefore⟩ :=
      exists_of_problems_eq_cons (hproblems.symm.trans hcons)
    refine ⟨before, after, hkey ▸ hnames, fun key hmem v hv hrejected => ?_⟩
    exact isRejected_iff.mp hrejected (hbefore key hmem v (Fields.get?_of_mem hkeys hv))

/-- **Overrides are merged key by key.** They are rejected exactly if one of them is rejected on
its own, and the error names those that are. Two sets of them that are accepted can be put in at
once or one after the other. Every key of a result comes from one tier. And in memory, a merge
adds a map and leaves all others as they are, the options of the configuration among them, also
where it ends in an error. -/
theorem merge_update {base first second : Fields} (output base? : Option String)
    (hfirst : first.keys.Nodup) (hsecond : second.keys.Nodup) :
    RejectsEntries first base? ∧
    (∀ converted converted', convertOverrides first base? = .ok converted →
      convertOverrides second base? = .ok converted' → ∃ once between twice,
        merge base (first.update second) output base? = .ok once ∧
        merge base first none base? = .ok between ∧
        merge between second output base? = .ok twice ∧
        ∀ key, once.get? key = twice.get? key) ∧
    (∀ result, merge base first output base? = .ok result →
      ∀ key, ComesFrom base first output base? key (result.get? key)) ∧
    ∀ (s : OptionStore) (ref : Nat), s.read? ref = some base →
      ∃ r s', (mergeIn ref first output base?).run s = (r, s') ∧
        r.map s'.read? = (merge base first output base?).map some ∧
        ∀ other options, s.read? other = some options → s'.read? other = some options := by
  refine ⟨rejectsEntries hfirst base?, ?_, fun result => comesFrom_of_merge, ?_⟩
  · intro converted converted' haccepted haccepted'
    obtain ⟨both, hboth⟩ := exists_convertOverrides_update hsecond ⟨_, haccepted⟩ ⟨_, haccepted'⟩
    have honce : merge base (first.update second) output base? = _ := merge_eq_ok hboth
    have hbetween : merge base first none base? = _ := merge_eq_ok haccepted
    have htwice : merge (base.update converted) second output base? = _ := merge_eq_ok haccepted'
    exact ⟨_, _, _, honce, hbetween, htwice, get?_merge_update hsecond honce hbetween htwice⟩
  · intro s ref hbase
    have hrun := run_mergeIn hbase first output base?
    cases hmerge : merge base first output base? with
    | ok result =>
      rw [hmerge] at hrun
      refine ⟨_, _, hrun, ?_, fun other options => read?_add_of_some result⟩
      exact congrArg Except.ok (read?_add_length s result)
    | error e =>
      rw [hmerge] at hrun
      exact ⟨_, _, hrun, rfl, fun other options => read?_add_of_some base⟩

/-- Overrides of three options, one of which is a path. -/
def looseOverrides : Fields :=
  [("strict", .bool false), ("target", .str "ES2020"), ("outDir", .str "dist")]

/-- Overrides that take one of the others back. -/
def strictOverrides : Fields := [("strict", .bool true)]

/-- The overrides are accepted, and merging them at once or one after the other is the same. -/
theorem merge_update_strictOverrides :
    looseOverrides.keys.Nodup ∧ strictOverrides.keys.Nodup ∧ ∃ once between twice,
      merge [] (looseOverrides.update strictOverrides) (some "out") (some "/p") = .ok once ∧
      merge [] looseOverrides none (some "/p") = .ok between ∧
      merge between strictOverrides (some "out") (some "/p") = .ok twice ∧
      ∀ key, once.get? key = twice.get? key := by
  have hloose : (convertOverrides looseOverrides (some "/p")).toOption.isSome := by
    decide +kernel
  have hstrict : (convertOverrides strictOverrides (some "/p")).toOption.isSome := by
    decide +kernel
  have hlooseKeys : looseOverrides.keys.Nodup := by decide
  have hstrictKeys : strictOverrides.keys.Nodup := by decide
  cases hfirst : convertOverrides looseOverrides (some "/p") with
  | error e => simp [hfirst, Except.toOption] at hloose
  | ok converted =>
    cases hsecond : convertOverrides strictOverrides (some "/p") with
    | error e => simp [hsecond, Except.toOption] at hstrict
    | ok converted' =>
      obtain ⟨-, hmerges, -⟩ := merge_update (some "out") (some "/p") hlooseKeys hstrictKeys
      exact ⟨hlooseKeys, hstrictKeys, hmerges converted converted' hfirst hsecond⟩

end CompilerOptions

end TsProject

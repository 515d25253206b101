import Mathlib.Data.List.Nodup
import Mathlib.Data.Set.List
import TsProject.Proofs.Options.Check

/-!
# Values of options

`OptionKind.Admits` says which values an option of a kind takes, one rule for each form of value.
A check finds nothing wrong with a value exactly when its kind admits it, and something wrong with
an option exactly when it is not in the table or its value is not of its kind, whatever is wrong
with the others: `CompilerOptions.exists_problem_iff`.
-/

namespace TsProject

/-- Lists of texts by pattern, as a value. -/
def Json.ofMapping (targets : List (String × List String)) : Json :=
  .obj (targets.map fun entry => (entry.1, .arr (entry.2.map .str)))

/-- A mapping stands for one list only. -/
theorem Json.ofMapping_injective : Function.Injective Json.ofMapping := by
  have htexts : Function.Injective fun ss : List String => Json.arr (ss.map .str) := fun a b h =>
    List.map_injective_iff.mpr (fun s t hst => Json.str.inj hst) (Json.arr.inj h)
  intro a b h
  refine List.map_injective_iff.mpr (fun x y hxy => ?_) (Json.obj.inj h)
  obtain ⟨hpattern, hvalue⟩ := Prod.mk.inj hxy
  exact Prod.ext hpattern (htexts hvalue)

/-- All members of a list have the form `f a` exactly when the list comes from one by `f`. -/
theorem exists_map_iff {α β : Type} {f : α → β} {xs : List β} :
    (∃ as : List α, as.map f = xs) ↔ ∀ x ∈ xs, ∃ a, f a = x :=
  Set.ext_iff.mp (Set.range_list_map f) xs

theorem forall_mem_zipIdx_iff {α : Type} {xs : List α} {p : α → Prop} :
    (∀ x ∈ xs.zipIdx, p x.1) ↔ ∀ x ∈ xs, p x := by
  constructor
  · intro h x hx
    obtain ⟨i, hi⟩ := List.mem_iff_getElem?.mp hx
    exact h (x, i) (List.mk_mem_zipIdx_iff_getElem?.mpr hi)
  · intro h x hx
    exact h x.1 (List.fst_mem_of_mem_zipIdx hx)

namespace OptionKind

/-- **The values of a kind**, as they may be given; null stands for no value in all of them. -/
inductive Admits : OptionKind → Json → Prop
  | null (kind : OptionKind) : Admits kind .null
  | boolean (b : Bool) : Admits .boolean (.bool b)
  | number (n : Int) : Admits .number (.int n)
  | text (s : String) : Admits .text (.str s)
  | choice {names : List String} {s : String} : Text.lower s ∈ names →
      Admits (.choice names) (.str s)
  | texts (ss : List String) : Admits .texts (.arr (ss.map .str))
  | loweredTexts (ss : List String) : Admits .loweredTexts (.arr (ss.map .str))
  | mapping (targets : List (String × List String)) : Admits .mapping (.ofMapping targets)
  | objects (members : List Fields) : Admits .objects (.arr (members.map .obj))

/-! ### Lists and mappings -/

/-- A check of one item after the other finds nothing when all items have the form `f a`. -/
theorem filterMap_zipIdx_eq_nil_iff {α β : Type} {f : α → Json} {check : Json × Nat → Option β}
    (hcheck : ∀ item i, check (item, i) = none ↔ ∃ a, f a = item) {items : List Json} :
    items.zipIdx.filterMap check = [] ↔ ∃ as : List α, as.map f = items := by
  have hchecks : (∀ entry ∈ items.zipIdx, check entry = none) ↔
      ∀ entry ∈ items.zipIdx, ∃ a, f a = entry.1 :=
    forall₂_congr fun entry _ => hcheck entry.1 entry.2
  rw [List.filterMap_eq_nil_iff, exists_map_iff, hchecks]
  exact forall_mem_zipIdx_iff (p := fun item => ∃ a, f a = item)

/-- **A list without faults** is a list of texts. -/
theorem textFaults_eq_nil_iff {place : List String} {items : List Json} :
    textFaults place items = [] ↔ ∃ ss : List String, ss.map .str = items :=
  filterMap_zipIdx_eq_nil_iff fun item i => by cases item <;> simp

/-- **A list of objects without faults.** -/
theorem objectFaults_eq_nil_iff {items : List Json} :
    objectFaults items = [] ↔ ∃ members : List Fields, members.map .obj = items :=
  filterMap_zipIdx_eq_nil_iff fun item i => by cases item <;> simp

theorem mappingFaults_cons (entry : String × Json) (members : Fields) :
    mappingFaults (entry :: members) = mappingFaults [entry] ++ mappingFaults members := by
  simp [mappingFaults]

/-- **A mapping without faults** holds lists of texts. -/
theorem mappingFaults_eq_nil_iff {members : Fields} :
    mappingFaults members = [] ↔ ∃ targets, Json.ofMapping targets = .obj members := by
  induction members with
  | nil => exact iff_of_true rfl ⟨[], rfl⟩
  | cons entry members ih =>
    obtain ⟨pattern, value⟩ := entry
    rw [mappingFaults_cons, List.append_eq_nil_iff, ih]
    constructor
    · rintro ⟨hvalue, targets, htargets⟩
      cases value with
      | arr items =>
        rw [mappingFaults, List.flatMap_singleton, textFaults_eq_nil_iff] at hvalue
        obtain ⟨ss, rfl⟩ := hvalue
        exact ⟨(pattern, ss) :: targets, by rw [← Json.obj.inj htargets]; rfl⟩
      | _ => cases hvalue
    · rintro ⟨_ | ⟨⟨pattern', ss⟩, targets⟩, h⟩
      · cases h
      · obtain ⟨hentry, hrest⟩ := List.cons_eq_cons.mp (Json.obj.inj h)
        obtain ⟨rfl, rfl⟩ := Prod.mk.inj hentry
        refine ⟨?_, targets, congrArg Json.obj hrest⟩
        rw [mappingFaults, List.flatMap_singleton, textFaults_eq_nil_iff]
        exact ⟨ss, rfl⟩

/-! ### Kinds -/

/-- Lower case makes texts of texts only. -/
theorem exists_map_str_of_map_lowerText {items : List Json} {ss : List String}
    (h : ss.map .str = items.map lowerText) : ∃ given : List String, given.map .str = items := by
  refine exists_map_iff.mpr fun item hitem => ?_
  have hmem : lowerText item ∈ ss.map Json.str := h ▸ List.mem_map_of_mem hitem
  obtain ⟨s, -, hs⟩ := List.mem_map.mp hmem
  cases item with
  | str given => exact ⟨given, rfl⟩
  | _ => cases hs

theorem map_lowerText_map_str (ss : List String) :
    (ss.map Json.str).map lowerText = (ss.map Text.lower).map .str := by
  simp [lowerText, Function.comp_def]

/-- **Nothing is wrong** with a value exactly when its kind admits it. -/
theorem faults_settle_eq_nil_iff {kind : OptionKind} {v : Json} :
    kind.faults (kind.settle v) = [] ↔ Admits kind v := by
  constructor
  · intro h
    cases v with
    | null => exact .null kind
    | bool b => cases kind <;> first | exact .boolean b | cases h
    | int n => cases kind <;> first | exact .number n | cases h
    | real x => cases kind <;> cases h
    | str s =>
      cases kind with
      | text => exact .text s
      | choice names =>
        refine .choice (by_contra fun hnot => ?_)
        simp [settle, lowerText, faults, hnot] at h
      | _ => cases h
    | arr items =>
      cases kind with
      | texts =>
        obtain ⟨ss, rfl⟩ := textFaults_eq_nil_iff.mp h
        exact .texts ss
      | loweredTexts =>
        obtain ⟨ss, hss⟩ := textFaults_eq_nil_iff.mp h
        obtain ⟨given, rfl⟩ := exists_map_str_of_map_lowerText hss
        exact .loweredTexts given
      | objects =>
        obtain ⟨members, rfl⟩ := objectFaults_eq_nil_iff.mp h
        exact .objects members
      | _ => cases h
    | obj members =>
      cases kind with
      | mapping =>
        obtain ⟨targets, htargets⟩ := mappingFaults_eq_nil_iff.mp h
        exact htargets ▸ .mapping targets
      | _ => cases h
  · rintro (kind | b | n | s | hs | ss | ss | targets | members)
    · cases kind <;> rfl
    · rfl
    · rfl
    · rfl
    · simp [settle, lowerText, faults, hs]
    · exact textFaults_eq_nil_iff.mpr ⟨ss, rfl⟩
    · exact textFaults_eq_nil_iff.mpr ⟨_, (map_lowerText_map_str ss).symm⟩
    · exact mappingFaults_eq_nil_iff.mpr ⟨targets, rfl⟩
    · exact objectFaults_eq_nil_iff.mpr ⟨members, rfl⟩

end OptionKind

namespace CompilerOptions

/-- **An option of the table**, with a value of its kind. -/
def IsOption (key : String) (v : Json) : Prop :=
  ∃ spec ∈ OptionSpec.all, spec.name = key ∧ spec.kind.Admits v

/-- No two options of the table have the same name. -/
theorem isOption_iff {spec : OptionSpec} (hspec : spec ∈ OptionSpec.all) {v : Json} :
    IsOption spec.name v ↔ spec.kind.Admits v := by
  constructor
  · rintro ⟨other, hother, hname, hadmits⟩
    rwa [← List.inj_on_of_nodup_map OptionSpec.nodup_names hother hspec hname]
  · exact fun hadmits => ⟨spec, hspec, rfl, hadmits⟩

/-- Accepted options have values of their kinds. -/
theorem admits_of_check {raw options : Fields} (h : check raw = .ok options) {spec : OptionSpec}
    (hspec : spec ∈ OptionSpec.all) {v : Json} (hv : raw.get? spec.name = some v) :
    spec.kind.Admits v :=
  OptionKind.faults_settle_eq_nil_iff.mp (faults_of_check h hspec hv)

/-- An accepted path mapping is taken as it stands. -/
theorem get?_paths_of_check {raw options : Fields} (h : check raw = .ok options) :
    options.get? "paths" = raw.get? "paths" ∧
      ∀ v, raw.get? "paths" = some v → OptionKind.mapping.Admits v := by
  have hfind : OptionSpec.find? "paths" = some ⟨"paths", .mapping⟩ := by decide +kernel
  have hspec : (⟨"paths", .mapping⟩ : OptionSpec) ∈ OptionSpec.all :=
    List.mem_of_find?_eq_some hfind
  have hsettled : settledValue "paths" = id := by
    funext v
    rw [settledValue, hfind]
    rfl
  refine ⟨?_, fun v hv => admits_of_check h hspec hv⟩
  rw [get?_of_check h, hsettled, Option.map_id_fun, id]

theorem exists_valueProblem_iff {raw : Fields} {key : String} :
    (∃ p ∈ valueProblems raw, p.key = key) ↔
      ∃ spec ∈ OptionSpec.all, spec.name = key ∧ ∃ v, raw.get? key = some v ∧ ¬IsOption key v := by
  constructor
  · rintro ⟨p, hp, rfl⟩
    obtain ⟨spec, hspec, hp⟩ := List.mem_flatMap.mp hp
    cases hv : raw.get? spec.name with
    | none => simp [hv] at hp
    | some v =>
      rw [hv] at hp
      obtain ⟨fault, hfault, rfl⟩ := List.mem_map.mp hp
      refine ⟨spec, hspec, rfl, v, hv, ?_⟩
      rw [isOption_iff hspec, ← OptionKind.faults_settle_eq_nil_iff]
      exact List.ne_nil_of_mem hfault
  · rintro ⟨spec, hspec, rfl, v, hv, hnot⟩
    rw [isOption_iff hspec, ← OptionKind.faults_settle_eq_nil_iff] at hnot
    obtain ⟨fault, hfault⟩ := List.exists_mem_of_ne_nil _ hnot
    refine ⟨⟨spec.name, fault⟩, List.mem_flatMap.mpr ⟨spec, hspec, ?_⟩, rfl⟩
    rw [hv]
    exact List.mem_map_of_mem hfault

theorem exists_unknownProblem_iff {raw : Fields} {key : String} :
    (∃ p ∈ unknownProblems raw, p.key = key) ↔
      (∀ spec ∈ OptionSpec.all, spec.name ≠ key) ∧ ∃ v, raw.get? key = some v := by
  have hfind : (OptionSpec.find? key).isNone ↔ ∀ spec ∈ OptionSpec.all, spec.name ≠ key := by
    simp [OptionSpec.find?]
  rw [← hfind, ← Option.isSome_iff_exists, ← Fields.mem_keys_iff]
  simp [unknownProblems, and_comm]

/-- **Something is wrong with an option** exactly when it is not in the table, or its value is
not of its kind. -/
theorem exists_problem_iff {raw : Fields} {key : String} :
    (∃ p ∈ problems raw, p.key = key) ↔ ∃ v, raw.get? key = some v ∧ ¬IsOption key v := by
  simp only [problems, List.mem_append, or_and_right, exists_or, exists_valueProblem_iff,
    exists_unknownProblem_iff]
  constructor
  · rintro (⟨spec, hspec, hname, v, hv, hnot⟩ | ⟨hunknown, v, hv⟩)
    · exact ⟨v, hv, hnot⟩
    · exact ⟨v, hv, fun ⟨spec, hspec, hname, _⟩ => hunknown spec hspec hname⟩
  · rintro ⟨v, hv, hnot⟩
    by_cases hknown : ∃ spec ∈ OptionSpec.all, spec.name = key
    · obtain ⟨spec, hspec, hname⟩ := hknown
      exact .inl ⟨spec, hspec, hname, v, hv, hnot⟩
    · exact .inr ⟨fun spec hspec hname => hknown ⟨spec, hspec, hname⟩, v, hv⟩

/-- **Nothing is wrong** with fields exactly when all of them are options. -/
theorem problems_eq_nil_iff {raw : Fields} :
    problems raw = [] ↔ ∀ key v, raw.get? key = some v → IsOption key v := by
  constructor
  · intro hnone key v hv
    by_contra hnot
    obtain ⟨p, hp, -⟩ := exists_problem_iff.mpr ⟨v, hv, hnot⟩
    rw [hnone] at hp
    cases hp
  · intro hall
    refine List.eq_nil_iff_forall_not_mem.mpr fun p hp => ?_
    obtain ⟨v, hv, hnot⟩ := exists_problem_iff.mp ⟨p, hp, rfl⟩
    exact hnot (hall p.key v hv)

end CompilerOptions

end TsProject

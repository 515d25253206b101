import TsProject.Config.Document
import TsProject.Proofs.Options.Kinds

/-!
# Shapes of documents

`Document.Holds` says what each known field of a document may hold. Reading a document finds
something wrong with a field exactly when it holds something else, whatever is wrong with the
other fields: `Document.exists_problem_iff`.
-/

namespace TsProject

namespace Document

/-- **A project reference**: an object with a path, and perhaps a truth value in some spelling. -/
inductive IsReference : Json → Prop
  | mk {members : Fields} (path : String) : Fields.get? "path" members = some (.str path) →
    (∀ v, Fields.get? "prepend" members = some v → v = .null ∨ ∃ b, readTruth v = .ok b) →
      IsReference (.obj members)

/-- **What a known field may hold**; null stands for nothing in all of them. -/
inductive Holds : (key : String) → Json → Prop
  | null (key : String) : Holds key .null
  | options {key : String} (members : Fields) :
    key = "compilerOptions" ∨ key = "compiler_options" → Holds key (.obj members)
  | texts {key : String} (ss : List String) :
    key ∈ ["files", "include", "exclude", "extends"] → Holds key (.arr (ss.map .str))
  | base (spec : String) : Holds "extends" (.str spec)
  | references {items : List Json} : (∀ item ∈ items, IsReference item) →
      Holds "references" (.arr items)

/-- The keys of the known fields. -/
def knownKeys (fields : Fields) : List String :=
  [optionsKey fields, "files", "include", "exclude", "extends", "references"]

/-! ### Values -/

theorem textProblems_eq_nil_iff {place : List String} {v : Json} :
    textProblems place v = [] ↔ ∃ s, .str s = v := by
  cases v <;> simp [textProblems]

theorem textsProblems_eq_nil_iff {key : String} {v : Json} :
    textsProblems key v = [] ↔ v = .null ∨ ∃ ss : List String, .arr (ss.map .str) = v := by
  cases v with
  | arr items =>
    simp only [textsProblems, List.flatMap_eq_nil_iff, textProblems_eq_nil_iff,
      Json.arr.injEq, reduceCtorEq, false_or, exists_map_iff]
    exact forall_mem_zipIdx_iff (p := fun item => ∃ s, Json.str s = item)
  | _ => simp [textsProblems]

theorem objectProblems_eq_nil_iff {key : String} {v : Json} :
    objectProblems key v = [] ↔ v = .null ∨ ∃ members, .obj members = v := by
  cases v <;> simp [objectProblems]

/-- **Nothing is wrong** with a reference exactly when it is one. -/
theorem referenceProblems_eq_nil_iff {place : List String} {v : Json} :
    referenceProblems place v = [] ↔ IsReference v := by
  cases v with
  | obj members =>
    rw [referenceProblems, List.append_eq_nil_iff]
    constructor
    · rintro ⟨hpath, hprepend⟩
      cases hp : Fields.get? "path" members with
      | none => simp [hp] at hpath
      | some v =>
        simp only [hp, textProblems_eq_nil_iff] at hpath
        obtain ⟨path, rfl⟩ := hpath
        refine .mk path hp fun v hv => ?_
        rw [hv] at hprepend
        cases htruth : readTruth v with
        | ok b => exact .inr ⟨b, rfl⟩
        | error shape => cases v <;> simp [htruth] at hprepend ⊢
    · rintro ⟨path, hpath, hprepend⟩
      refine ⟨by simp [hpath, textProblems], ?_⟩
      cases hv : Fields.get? "prepend" members with
      | none => rfl
      | some v =>
        rcases hprepend v hv with rfl | ⟨b, hb⟩
        · rfl
        · cases v <;> simp [hb]
  | _ => exact iff_of_false (by simp [referenceProblems]) (by rintro ⟨⟩)

theorem referencesProblems_eq_nil_iff {key : String} {v : Json} :
    referencesProblems key v = [] ↔
      v = .null ∨ ∃ items, .arr items = v ∧ ∀ item ∈ items, IsReference item := by
  cases v with
  | arr items =>
    simp only [referencesProblems, List.flatMap_eq_nil_iff, referenceProblems_eq_nil_iff,
      Json.arr.injEq, reduceCtorEq, false_or, exists_eq_left]
    exact forall_mem_zipIdx_iff
  | _ => simp [referencesProblems]

theorem head?_of_mem_textsProblems {key : String} {v : Json} {p : ShapeProblem}
    (h : p ∈ textsProblems key v) : p.place.head? = some key := by
  cases v with
  | arr items =>
    obtain ⟨⟨item, i⟩, -, hp⟩ := List.mem_flatMap.mp h
    cases item <;> simp_all [textProblems]
  | _ => simp_all [textsProblems]

theorem head?_of_mem_referenceProblems {key : String} {place : List String} {v : Json}
    {p : ShapeProblem} (h : p ∈ referenceProblems (key :: place) v) :
    p.place.head? = some key := by
  cases v with
  | obj members =>
    rcases List.mem_append.mp h with hpath | hprepend
    · cases hp : Fields.get? "path" members with
      | none => simp_all
      | some v => cases v <;> simp_all [textProblems]
    · cases hv : Fields.get? "prepend" members with
      | none => simp_all
      | some v =>
        cases htruth : readTruth v <;> cases v <;> simp_all
  | _ => simp_all [referenceProblems]

theorem head?_of_mem_referencesProblems {key : String} {v : Json} {p : ShapeProblem}
    (h : p ∈ referencesProblems key v) : p.place.head? = some key := by
  cases v with
  | arr items =>
    obtain ⟨⟨item, i⟩, -, hp⟩ := List.mem_flatMap.mp h
    exact head?_of_mem_referenceProblems hp
  | _ => simp_all [referencesProblems]

/-! ### Fields -/

/-- The problems with the value of a known field. -/
def fieldProblems (key : String) (v : Json) : List ShapeProblem :=
  if key ∈ ["files", "include", "exclude"] then textsProblems key v
  else if key = "extends" then textsProblems key (listOfOne v)
  else if key = "references" then referencesProblems key v
  else objectProblems key v

theorem optionsKey_eq (fields : Fields) :
    optionsKey fields = "compilerOptions" ∨ optionsKey fields = "compiler_options" := by
  rw [optionsKey]
  split_ifs <;> simp

/-- The fields are looked at one by one. -/
theorem problems_eq_flatMap (fields : Fields) :
    problems fields = (knownKeys fields).flatMap fun key =>
      fieldProblems key (valueOf fields key) := by
  rcases optionsKey_eq fields with h | h <;> simp [problems, knownKeys, fieldProblems, h]

theorem holds_options_iff {key : String} {v : Json}
    (hkey : key = "compilerOptions" ∨ key = "compiler_options") :
    Holds key v ↔ v = .null ∨ ∃ members, .obj members = v := by
  constructor
  · intro h
    cases h with
    | null => exact .inl rfl
    | options members => exact .inr ⟨members, rfl⟩
    | texts ss hlist => rcases hkey with rfl | rfl <;> simp at hlist
    | base | references => simp at hkey
  · rintro (rfl | ⟨members, rfl⟩)
    · exact .null key
    · exact .options members hkey

theorem holds_texts_iff {key : String} {v : Json} (hkey : key ∈ ["files", "include", "exclude"]) :
    Holds key v ↔ v = .null ∨ ∃ ss : List String, .arr (ss.map .str) = v := by
  constructor
  · intro h
    cases h with
    | null => exact .inl rfl
    | texts ss => exact .inr ⟨ss, rfl⟩
    | options members hoptions => rcases hoptions with rfl | rfl <;> simp at hkey
    | base | references => simp at hkey
  · rintro (rfl | ⟨ss, rfl⟩)
    · exact .null key
    · exact .texts ss (List.mem_append_left ["extends"] hkey)

theorem holds_extends_iff {v : Json} :
    Holds "extends" v ↔ v = .null ∨ (∃ ss : List String, .arr (ss.map .str) = v) ∨
      ∃ s, .str s = v := by
  constructor
  · generalize hkey : "extends" = key
    rintro (_ | ⟨members, rfl | rfl⟩ | ss | spec | _)
    · exact .inl rfl
    · simp at hkey
    · simp at hkey
    · exact .inr (.inl ⟨ss, rfl⟩)
    · exact .inr (.inr ⟨spec, rfl⟩)
    · simp at hkey
  · rintro (rfl | ⟨ss, rfl⟩ | ⟨s, rfl⟩)
    · exact .null _
    · exact .texts ss (by simp)
    · exact .base s

theorem holds_references_iff {v : Json} :
    Holds "references" v ↔
      v = .null ∨ ∃ items, .arr items = v ∧ ∀ item ∈ items, IsReference item := by
  constructor
  · generalize hkey : "references" = key
    rintro (_ | ⟨members, rfl | rfl⟩ | ⟨ss, hlist⟩ | spec | hitems)
    · exact .inl rfl
    · simp at hkey
    · simp at hkey
    · simp [← hkey] at hlist
    · simp at hkey
    · exact .inr ⟨_, rfl, hitems⟩
  · rintro (rfl | ⟨items, rfl, hitems⟩)
    · exact .null _
    · exact .references hitems

/-- **Nothing is wrong** with a known field exactly when it holds what it may. -/
theorem fieldProblems_eq_nil_iff {fields : Fields} {key : String} {v : Json}
    (hkey : key ∈ knownKeys fields) : fieldProblems key v = [] ↔ Holds key v := by
  rcases List.mem_cons.mp hkey with rfl | hkey
  · have hoptions := optionsKey_eq fields
    have hfield : fieldProblems (optionsKey fields) v = objectProblems (optionsKey fields) v := by
      rcases hoptions with h | h <;> simp [h, fieldProblems]
    rw [hfield, objectProblems_eq_nil_iff, holds_options_iff hoptions]
  · by_cases htexts : key ∈ ["files", "include", "exclude"]
    · rw [fieldProblems, if_pos htexts, textsProblems_eq_nil_iff, holds_texts_iff htexts]
    · obtain rfl | rfl : key = "extends" ∨ key = "references" := by simp_all
      · rw [fieldProblems, if_neg htexts, if_pos rfl, textsProblems_eq_nil_iff, holds_extends_iff]
        cases v with
        | str s => exact iff_of_true (.inr ⟨[s], rfl⟩) (.inr (.inr ⟨s, rfl⟩))
        | _ => simp [listOfOne]
      · rw [fieldProblems, if_neg htexts, if_neg (by decide), if_pos rfl,
          referencesProblems_eq_nil_iff, holds_references_iff]

/-- A problem with a field leads to it. -/
theorem head?_of_mem_fieldProblems {key : String} {v : Json} {p : ShapeProblem}
    (h : p ∈ fieldProblems key v) : p.place.head? = some key := by
  rw [fieldProblems] at h
  split_ifs at h
  · exact head?_of_mem_textsProblems h
  · exact head?_of_mem_textsProblems h
  · exact head?_of_mem_referencesProblems h
  · cases v <;> simp_all [objectProblems]

/-- **Something is wrong with a field** exactly when it is known and holds what it may not. -/
theorem exists_problem_iff {fields : Fields} {key : String} :
    (∃ p ∈ problems fields, p.place.head? = some key) ↔
      key ∈ knownKeys fields ∧ ¬Holds key (valueOf fields key) := by
  rw [problems_eq_flatMap]
  constructor
  · rintro ⟨p, hp, hplace⟩
    obtain ⟨other, hother, hp⟩ := List.mem_flatMap.mp hp
    obtain rfl := Option.some.inj ((head?_of_mem_fieldProblems hp).symm.trans hplace)
    rw [← fieldProblems_eq_nil_iff hother]
    exact ⟨hother, List.ne_nil_of_mem hp⟩
  · rintro ⟨hkey, hholds⟩
    rw [← fieldProblems_eq_nil_iff hkey] at hholds
    obtain ⟨p, hp⟩ := List.exists_mem_of_ne_nil _ hholds
    exact ⟨p, List.mem_flatMap.mpr ⟨key, hkey, hp⟩, head?_of_mem_fieldProblems hp⟩

end Document

end TsProject

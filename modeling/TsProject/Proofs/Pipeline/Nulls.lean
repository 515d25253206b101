import Mathlib.Data.List.Pairwise
import Mathlib.Data.List.Lattice
import TsProject.Pipeline.Request
import TsProject.Proofs.Json.Fields
import TsProject.Proofs.Options.Kinds

/-!
# Nulls in requests

Each field of a request is read from the first of its spellings that occurs, and from nothing else
(`problems_eq_flatMap`, `values_of_ofFields`). A null found there stands for a field that is not
given. So a null can be left out of a request, unless it **hides** a value: it stands under a
spelling of the field, and a value under a later one. `alike_withoutNulls_iff` says when a request
without its nulls is read alike: exactly when the first problem, if there is one, is not with a
hidden value, and the hidden values are the defaults of their fields otherwise.
-/

namespace TsProject.CompileRequest

/-- **A field of a request**: its spellings, what is wrong with the value found under one of them,
and its default. -/
structure Slot where
  keys : List String
  problems : Option (String × Json) → List FieldProblem
  default : Json

/-- The fields, in the order in which they are checked. -/
def slots : List Slot :=
  [⟨configKeys, configProblems, .str Config.defaultName⟩, ⟨inputKeys, inputProblems, .null⟩,
    ⟨outputKeys, outputProblems, .null⟩, ⟨overrideKeys, overrideProblems, .obj []⟩]

/-- The value is not null. -/
def isGiven : Json → Bool
  | .null => false
  | _ => true

/-- The fields without those that are null. -/
def withoutNulls (fields : Fields) : Fields := fields.filter fun kv => isGiven kv.2

/-- **What a field is read from**: the first of its spellings that occurs, where it has a value. -/
def Slot.seen? (slot : Slot) (fields : Fields) : Option (String × Json) :=
  (pick? slot.keys fields).filter fun kv => isGiven kv.2

/-- The value that a field gets. -/
def Slot.valueIn (slot : Slot) (fields : Fields) : Json :=
  ((slot.seen? fields).map (·.2)).getD slot.default

/-- **What a null hides**: what a field is read from without the nulls, where it is read from
nothing with them. -/
def Slot.hidden? (slot : Slot) (fields : Fields) : Option (String × Json) :=
  match slot.seen? fields with
  | some _ => none
  | none => slot.seen? (withoutNulls fields)

/-- The values of a request, in the order of the fields. -/
def values (r : CompileRequest) : List Json :=
  [.str r.configPath, (r.inputFiles.map fun fs => .arr (fs.map .str)).getD .null,
    textOrNull r.outputLocation, .obj r.overrides]

/-- **Readings that are alike**: they fail with the same first problem, or give the same request,
whichever fields were given to make it. -/
def Alike : Except (List FieldProblem) CompileRequest →
    Except (List FieldProblem) CompileRequest → Prop
  | .error problems, .error problems' => problems.head? = problems'.head?
  | .ok r, .ok r' => { r with given := [] } = { r' with given := [] }
  | _, _ => False

variable {fields : Fields} {slot : Slot}

/-! ### Picking -/

theorem mem_keys_of_pick? {keys : List String} {kv : String × Json}
    (h : pick? keys fields = some kv) : kv.1 ∈ keys := by
  obtain ⟨key, hkey, hfound⟩ := List.exists_of_findSome?_eq_some h
  obtain ⟨v, -, rfl⟩ := Option.map_eq_some_iff.mp hfound
  exact hkey

/-- A spelling that occurs with a value is picked without the nulls, too. -/
theorem pick?_withoutNulls (hkeys : fields.keys.Nodup) {keys : List String} {kv : String × Json}
    (h : pick? keys fields = some kv) (hgiven : isGiven kv.2) :
    pick? keys (withoutNulls fields) = some kv := by
  have hget : ∀ key, (withoutNulls fields).get? key = (fields.get? key).filter isGiven :=
    fun key => Fields.get?_filter_value hkeys isGiven key
  obtain ⟨before, key, after, rfl, hkey, hbefore⟩ := List.findSome?_eq_some_iff.mp h
  obtain ⟨v, hv, rfl⟩ := Option.map_eq_some_iff.mp hkey
  refine List.findSome?_eq_some_iff.mpr ⟨before, key, after, rfl, ?_, fun other hother => ?_⟩
  · rw [hget, hv, Option.filter_some, if_pos hgiven, Option.map_some]
  · have hnone : fields.get? other = none := Option.map_eq_none_iff.mp (hbefore other hother)
    rw [hget, hnone, Option.filter_none, Option.map_none]

namespace Slot

theorem seen?_eq_some_iff {kv : String × Json} :
    slot.seen? fields = some kv ↔ pick? slot.keys fields = some kv ∧ isGiven kv.2 :=
  Option.filter_eq_some_iff

/-- **What is seen without the nulls** is what is seen with them, and what they hide. -/
theorem seen?_withoutNulls (hkeys : fields.keys.Nodup) (slot : Slot) :
    slot.seen? (withoutNulls fields) = (slot.seen? fields).or (slot.hidden? fields) := by
  cases hseen : slot.seen? fields with
  | none => rw [hidden?, hseen, Option.none_or]
  | some kv =>
    obtain ⟨hpick, hgiven⟩ := seen?_eq_some_iff.mp hseen
    exact seen?_eq_some_iff.mpr ⟨pick?_withoutNulls hkeys hpick hgiven, hgiven⟩

theorem hidden?_eq_some_iff {kv : String × Json} : slot.hidden? fields = some kv ↔
    slot.seen? fields = none ∧ slot.seen? (withoutNulls fields) = some kv := by
  cases hseen : slot.seen? fields <;> simp [hidden?, hseen]

end Slot

/-! ### Problems -/

/-- **A problem is with a value** that is seen, and names its spelling. -/
theorem exists_of_mem_slotProblems (hslot : slot ∈ slots) {found : Option (String × Json)}
    {p : FieldProblem} (hp : p ∈ slot.problems found) :
    ∃ kv, found = some kv ∧ isGiven kv.2 ∧ p.place.head? = some kv.1 := by
  simp only [slots, List.mem_cons, List.not_mem_nil, or_false] at hslot
  rcases found with - | ⟨key, v⟩
  · rcases hslot with rfl | rfl | rfl | rfl <;> cases hp
  · refine ⟨(key, v), rfl, ?_⟩
    rcases hslot with rfl | rfl | rfl | rfl
    · cases v with
      | str s =>
        dsimp only [configProblems] at hp
        split_ifs at hp <;> simp_all [isGiven]
      | _ => simp_all [configProblems, isGiven]
    · cases v with
      | arr items =>
        obtain ⟨⟨item, i⟩, -, hitem⟩ := List.mem_filterMap.mp hp
        cases item <;> simp_all [isGiven] <;> simp [← hitem]
      | _ => simp_all [inputProblems, isGiven]
    · cases v <;> simp_all [outputProblems, isGiven]
    · cases v <;> simp_all [overrideProblems, isGiven]

theorem slotProblems_none (hslot : slot ∈ slots) : slot.problems none = [] := by
  refine List.eq_nil_iff_forall_not_mem.mpr fun p hp => ?_
  obtain ⟨kv, hkv, -⟩ := exists_of_mem_slotProblems hslot hp
  cases hkv

/-- **The problems with a request** are those with what its fields are read from. -/
theorem problems_eq_flatMap (fields : Fields) :
    problems fields = slots.flatMap fun slot => slot.problems (slot.seen? fields) := by
  have hslots : problems fields =
      slots.flatMap fun slot => slot.problems (pick? slot.keys fields) := by
    simp [problems, slots]
  rw [hslots]
  refine List.flatMap_congr fun slot hslot => ?_
  cases hpick : pick? slot.keys fields with
  | none => simp [Slot.seen?, hpick]
  | some kv =>
    by_cases hgiven : isGiven kv.2
    · rw [Slot.seen?_eq_some_iff.mpr ⟨hpick, hgiven⟩]
    · -- a null is no problem, and neither is a field that is not given
      have hseen : slot.seen? fields = none := by simp [Slot.seen?, hpick, hgiven]
      rw [hseen, slotProblems_none hslot]
      refine List.eq_nil_iff_forall_not_mem.mpr fun p hp => ?_
      obtain ⟨kv', hkv', hgiven', -⟩ := exists_of_mem_slotProblems hslot hp
      obtain rfl := Option.some.inj hkv'
      exact hgiven hgiven'

/-- No spelling is one of two fields. -/
theorem slot_unique {slot' : Slot} {key : String} (hslot : slot ∈ slots) (hslot' : slot' ∈ slots)
    (hkey : key ∈ slot.keys) (hkey' : key ∈ slot'.keys) : slot = slot' := by
  have hnodup : (slots.flatMap (·.keys)).Nodup := by decide
  have hdisjoint : slots.Pairwise fun a b => a.keys.Disjoint b.keys :=
    (List.nodup_flatMap.mp hnodup).2
  have hsymm : Std.Symm fun a b : Slot => a.keys.Disjoint b.keys := ⟨fun _ _ => List.Disjoint.symm⟩
  by_contra hne
  exact hdisjoint.forall hslot hslot' hne hkey hkey'

/-! ### Values -/

theorem configPath_eq {o : Option (String × Json)} (h : configProblems o = []) :
    Json.str ((o.bind (·.2.text?)).getD Config.defaultName) =
      ((o.filter fun kv => isGiven kv.2).map (·.2)).getD (.str Config.defaultName) := by
  rcases o with - | ⟨key, v⟩
  · rfl
  · cases v <;> first | rfl | cases h

theorem inputFiles_eq {o : Option (String × Json)} (h : inputProblems o = []) :
    ((o.bind (Document.texts? ·.2)).map fun fs => Json.arr (fs.map .str)).getD .null =
      ((o.filter fun kv => isGiven kv.2).map (·.2)).getD .null := by
  rcases o with - | ⟨key, v⟩
  · rfl
  · cases v with
    | arr items =>
      have htexts : ∀ item ∈ items, ∃ s, Json.str s = item := by
        refine forall_mem_zipIdx_iff (p := fun item => ∃ s, Json.str s = item).mp fun x hx => ?_
        have hx := List.filterMap_eq_nil_iff.mp h x hx
        obtain ⟨item, i⟩ := x
        cases item <;> simp_all
      obtain ⟨ss, rfl⟩ := exists_map_iff.mpr htexts
      have hfilter : (ss.map Json.str).filterMap Json.text? = ss := by
        rw [List.filterMap_map]
        exact List.filterMap_some
      have hgiven : isGiven (.arr (ss.map .str)) = true := rfl
      simp [Document.texts?, hfilter, Option.filter, hgiven]
    | null => rfl
    | _ => cases h

theorem outputLocation_eq {o : Option (String × Json)} (h : outputProblems o = []) :
    textOrNull (o.bind (·.2.text?)) =
      ((o.filter fun kv => isGiven kv.2).map (·.2)).getD .null := by
  rcases o with - | ⟨key, v⟩
  · rfl
  · cases v <;> first | rfl | cases h

theorem overrides_eq {o : Option (String × Json)} (h : overrideProblems o = []) :
    Json.obj ((o.bind (Document.members? ·.2)).getD []) =
      ((o.filter fun kv => isGiven kv.2).map (·.2)).getD (.obj []) := by
  rcases o with - | ⟨key, v⟩
  · rfl
  · cases v <;> first | rfl | cases h

/-- **A request holds the values of its fields.** -/
theorem values_of_ofFields {r : CompileRequest} (h : ofFields fields = .ok r) :
    r.values = slots.map (·.valueIn fields) := by
  rw [ofFields] at h
  split at h
  · rename_i hproblems
    obtain rfl := Except.ok.inj h
    rw [problems] at hproblems
    simp only [List.append_eq_nil_iff] at hproblems
    obtain ⟨⟨⟨hconfig, hinput⟩, houtput⟩, hoverride⟩ := hproblems
    simp only [values, configPath_eq hconfig, inputFiles_eq hinput, outputLocation_eq houtput,
      overrides_eq hoverride]
    rfl
  · cases h

/-- Requests with the same values are the same, whichever fields were given. -/
theorem values_eq_iff {r r' : CompileRequest} :
    r.values = r'.values ↔ { r with given := [] } = { r' with given := [] } := by
  have hstr : Function.Injective Json.str := fun _ _ => Json.str.inj
  obtain ⟨configPath, inputFiles, outputLocation, overrides, given⟩ := r
  obtain ⟨configPath', inputFiles', outputLocation', overrides', given'⟩ := r'
  have hfiles : (inputFiles.map fun fs => Json.arr (fs.map .str)).getD .null =
      (inputFiles'.map fun fs => Json.arr (fs.map .str)).getD .null ↔ inputFiles = inputFiles' := by
    cases inputFiles <;> cases inputFiles' <;> simp [(List.map_injective_iff.mpr hstr).eq_iff]
  have houtput : textOrNull outputLocation = textOrNull outputLocation' ↔
      outputLocation = outputLocation' := by
    cases outputLocation <;> cases outputLocation' <;> simp [textOrNull]
  simp [values, hfiles, houtput]

/-! ### Readings -/

theorem exists_ofFields_iff : (∃ r, ofFields fields = .ok r) ↔ problems fields = [] := by
  rw [ofFields]
  split <;> simp_all

theorem ofFields_eq_error_iff {found : List FieldProblem} :
    ofFields fields = .error found ↔ problems fields = found ∧ found ≠ [] := by
  rw [ofFields]
  split
  · rename_i hnone
    simp only [reduceCtorEq, hnone, false_iff, not_and, ne_eq, not_not]
    exact Eq.symm
  · rename_i hsome
    rw [Except.error.injEq]
    constructor
    · rintro rfl
      exact ⟨rfl, hsome⟩
    · exact And.left

/-! ### Leaving out the nulls -/

/-- A field is seen alike without the nulls, or a null hides what is seen without it. -/
theorem Slot.seen?_cases (hkeys : fields.keys.Nodup) (slot : Slot) :
    (slot.hidden? fields = none ∧ slot.seen? (withoutNulls fields) = slot.seen? fields) ∨
      ∃ kv, slot.hidden? fields = some kv ∧ slot.seen? fields = none ∧
        slot.seen? (withoutNulls fields) = some kv := by
  have hwithout := slot.seen?_withoutNulls hkeys
  cases hhidden : slot.hidden? fields with
  | none => exact .inl ⟨rfl, by rw [hwithout, hhidden, Option.or_none]⟩
  | some kv => exact .inr ⟨kv, rfl, hidden?_eq_some_iff.mp hhidden⟩

/-- **A field gets the same value** exactly when what a null hides is its default. -/
theorem Slot.valueIn_withoutNulls_iff (hkeys : fields.keys.Nodup) (slot : Slot) :
    slot.valueIn fields = slot.valueIn (withoutNulls fields) ↔
      ∀ kv, slot.hidden? fields = some kv → kv.2 = slot.default := by
  rw [valueIn, valueIn]
  rcases slot.seen?_cases hkeys with ⟨hhidden, hsame⟩ | ⟨kv, hhidden, hnone, hsome⟩
  · simp [hhidden, hsame]
  · simp [hhidden, hnone, hsome, eq_comm]

/-- No problem comes from a null. -/
theorem problems_eq_nil_of_withoutNulls (hkeys : fields.keys.Nodup)
    (h : problems (withoutNulls fields) = []) : problems fields = [] := by
  rw [problems_eq_flatMap, List.flatMap_eq_nil_iff] at h ⊢
  intro slot hslot
  rcases slot.seen?_cases hkeys with ⟨-, hsame⟩ | ⟨kv, -, hnone, -⟩
  · rw [← hsame]
    exact h slot hslot
  · rw [hnone]
    exact slotProblems_none hslot

/-- **The first problem is the same** exactly when it is not with a value that a null hides. -/
theorem head?_problems_iff (hkeys : fields.keys.Nodup) {p : FieldProblem}
    (hp : (problems (withoutNulls fields)).head? = some p) :
    (problems fields).head? = some p ↔
      ∀ slot ∈ slots, ∀ kv, slot.hidden? fields = some kv → p.place.head? ≠ some kv.1 := by
  constructor
  · intro hfirst slot hslot kv hhidden hplace
    -- the problem is with a field whose value is seen, so not with the one that has a hidden value
    have hmem := List.mem_of_head? hfirst
    rw [problems_eq_flatMap] at hmem
    obtain ⟨slot', hslot', hp'⟩ := List.mem_flatMap.mp hmem
    obtain ⟨kv', hseen', -, hplace'⟩ := exists_of_mem_slotProblems hslot' hp'
    obtain ⟨hnone, hsome⟩ := Slot.hidden?_eq_some_iff.mp hhidden
    have hkey : kv.1 ∈ slot.keys := mem_keys_of_pick? (Slot.seen?_eq_some_iff.mp hsome).1
    have hkey' : kv'.1 ∈ slot'.keys := mem_keys_of_pick? (Slot.seen?_eq_some_iff.mp hseen').1
    have hsame : kv.1 = kv'.1 := Option.some.inj (hplace.symm.trans hplace')
    obtain rfl := slot_unique hslot hslot' hkey (hsame ▸ hkey')
    rw [hnone] at hseen'
    cases hseen'
  · intro hother
    rw [problems_eq_flatMap, List.head?_flatMap] at hp ⊢
    obtain ⟨before, slot, after, hslots, hfirst, hbefore⟩ := List.findSome?_eq_some_iff.mp hp
    refine List.findSome?_eq_some_iff.mpr ⟨before, slot, after, hslots, ?_, fun other hmem => ?_⟩
    · have hslot : slot ∈ slots := hslots ▸ List.mem_append_right before List.mem_cons_self
      rcases slot.seen?_cases hkeys with ⟨-, hsame⟩ | ⟨kv, hhidden, -, hsome⟩
      · rw [← hsame]
        exact hfirst
      · rw [hsome] at hfirst
        obtain ⟨kv', hkv', -, hplace⟩ :=
          exists_of_mem_slotProblems hslot (List.mem_of_head? hfirst)
        obtain rfl := Option.some.inj hkv'
        exact absurd hplace (hother slot hslot kv hhidden)
    · have hslot : other ∈ slots := hslots ▸ List.mem_append_left _ hmem
      rcases other.seen?_cases hkeys with ⟨-, hsame⟩ | ⟨kv, -, hnone, -⟩
      · rw [← hsame]
        exact hbefore other hmem
      · rw [hnone, slotProblems_none hslot, List.head?_nil]

/-- **Nulls stand for what is left out**, exactly where they hide nothing that counts: the first
problem without them, if there is one, is not with a hidden value, and if there is none, the hidden
values are the defaults of their fields. -/
theorem alike_withoutNulls_iff (hkeys : fields.keys.Nodup) :
    Alike (ofFields fields) (ofFields (withoutNulls fields)) ↔
      ∀ slot ∈ slots, ∀ kv, slot.hidden? fields = some kv →
        (∀ p, (problems (withoutNulls fields)).head? = some p → p.place.head? ≠ some kv.1) ∧
        (problems (withoutNulls fields) = [] → kv.2 = slot.default) := by
  cases hwithout : ofFields (withoutNulls fields) with
  | ok r' =>
    have hnone' : problems (withoutNulls fields) = [] := exists_ofFields_iff.mp ⟨r', hwithout⟩
    obtain ⟨r, hr⟩ := exists_ofFields_iff.mpr (problems_eq_nil_of_withoutNulls hkeys hnone')
    have hvalues : r.values = r'.values ↔
        ∀ slot ∈ slots, slot.valueIn fields = slot.valueIn (withoutNulls fields) := by
      rw [values_of_ofFields hr, values_of_ofFields hwithout, List.map_inj_left]
    simp only [hr, Alike, ← values_eq_iff, hvalues, Slot.valueIn_withoutNulls_iff hkeys, hnone',
      List.head?_nil, reduceCtorEq, false_imp_iff, implies_true, true_and, forall_const]
  | error found' =>
    obtain ⟨hfound', hne⟩ := ofFields_eq_error_iff.mp hwithout
    obtain ⟨p, hp⟩ := Option.isSome_iff_exists.mp (List.isSome_head?.mpr hne)
    have halike : Alike (ofFields fields) (.error found') ↔ (problems fields).head? = some p := by
      cases hwith : ofFields fields with
      | ok r =>
        have hnone : problems fields = [] := exists_ofFields_iff.mp ⟨r, hwith⟩
        simp [Alike, hnone]
      | error found =>
        rw [(ofFields_eq_error_iff.mp hwith).1, Alike, hp]
    rw [halike, head?_problems_iff hkeys (hfound' ▸ hp)]
    simp [hfound', hp, hne]

/-- A null before the default, and a null that stands alone, can be left out. -/
theorem alike_nullBeforeDefault : Alike
    (ofFields [("config_path", .null), ("outputDir", .null), ("configPath", .str "tsconfig.json")])
    (ofFields (withoutNulls
      [("config_path", .null), ("outputDir", .null), ("configPath", .str "tsconfig.json")])) := by
  refine (alike_withoutNulls_iff (by decide)).mpr fun slot hslot kv hhidden => ?_
  constructor
  · intro p hp
    cases hp
  · intro _
    simp only [slots, List.mem_cons, List.not_mem_nil, or_false] at hslot
    rcases hslot with rfl | rfl | rfl | rfl <;> cases hhidden
    rfl

/-- **A null can hide a value**: the configuration under its second spelling is not looked at. -/
theorem not_forall_alike_withoutNulls :
    ¬ ∀ fields : Fields, fields.keys.Nodup →
      Alike (ofFields fields) (ofFields (withoutNulls fields)) := by
  intro h
  have halike := h [("config_path", .null), ("configPath", .str "x.json")] (by decide)
  have hpath : "tsconfig.json" = "x.json" := congrArg CompileRequest.configPath halike
  exact absurd hpath (by decide)

end TsProject.CompileRequest

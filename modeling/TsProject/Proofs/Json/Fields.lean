import Mathlib.Data.List.Nodup
import TsProject.Json.Basic

/-!
# Fields as maps

What `Fields.update` does to the value of every key: the key has the value that the new fields
end with, and its old value where they do not hold it (`get?_update`). Fields without a repeated
key amount to themselves (`get?_ofMembers`), and putting values into them repeats none
(`nodup_keys_update`). Two of them with the same value for every key differ in the order of their
members only (`perm_of_get?`).
-/

namespace TsProject.Fields

@[simp] theorem get?_cons (k : String) (v : Json) (fields : Fields) (key : String) :
    get? key ((k, v) :: fields) = if k = key then some v else fields.get? key := rfl

theorem get?_eq_none_iff {fields : Fields} {key : String} :
    fields.get? key = none ↔ key ∉ fields.keys := by
  induction fields with
  | nil => simp [keys]
  | cons kv fields ih =>
    obtain ⟨k, v⟩ := kv
    by_cases hk : k = key
    · simp [hk, keys]
    · rw [get?_cons, if_neg hk, ih]
      simp [keys, Ne.symm hk]

theorem mem_keys_iff {fields : Fields} {key : String} :
    key ∈ fields.keys ↔ (fields.get? key).isSome := by
  rw [Option.isSome_iff_ne_none, Ne, get?_eq_none_iff, Classical.not_not]

/-- Every member of fields without a repeated key is the one that is found. -/
theorem get?_of_mem {fields : Fields} {key : String} {v : Json} (h : fields.keys.Nodup)
    (hmem : (key, v) ∈ fields) : fields.get? key = some v := by
  induction fields with
  | nil => cases hmem
  | cons kv fields ih =>
    obtain ⟨k, value⟩ := kv
    obtain ⟨hk, hfields⟩ := List.nodup_cons.mp h
    rcases List.mem_cons.mp hmem with heq | hmem
    · obtain ⟨rfl, rfl⟩ := Prod.mk.inj heq
      rw [get?_cons, if_pos rfl]
    · have hne : k ≠ key := by
        rintro rfl
        exact hk (List.mem_map.mpr ⟨_, hmem, rfl⟩)
      rw [get?_cons, if_neg hne]
      exact ih hfields hmem

/-- A value that is found is that of a member. -/
theorem mem_of_get? {fields : Fields} {key : String} {v : Json} (h : fields.get? key = some v) :
    (key, v) ∈ fields := by
  induction fields with
  | nil => cases h
  | cons kv fields ih =>
    obtain ⟨k, value⟩ := kv
    rw [get?_cons] at h
    split_ifs at h with hk
    · obtain rfl := Option.some.inj h
      exact hk ▸ List.mem_cons_self
    · exact List.mem_cons_of_mem _ (ih h)

/-- **The same map**: fields with the same value for every key differ in their order only. -/
theorem perm_of_get? {fields other : Fields} (h : fields.keys.Nodup) (h' : other.keys.Nodup)
    (hget : ∀ key, fields.get? key = other.get? key) : fields.Perm other := by
  refine (List.perm_ext_iff_of_nodup h.of_map h'.of_map).mpr fun (key, v) => ?_
  constructor
  · intro hmem
    exact mem_of_get? ((hget key).symm.trans (get?_of_mem h hmem))
  · intro hmem
    exact mem_of_get? ((hget key).trans (get?_of_mem h' hmem))

theorem nodup_keys_set {fields : Fields} (h : fields.keys.Nodup) (key : String) (value : Json) :
    (fields.set key value).keys.Nodup := by
  induction fields with
  | nil => exact List.pairwise_singleton _ _
  | cons kv fields ih =>
    obtain ⟨k, v⟩ := kv
    obtain ⟨hk, hfields⟩ := List.nodup_cons.mp h
    rw [set]
    by_cases hkey : k = key
    · rw [if_pos hkey]
      exact h
    · rw [if_neg hkey]
      refine List.nodup_cons.mpr ⟨?_, ih hfields⟩
      change k ∉ keys (set key value fields)
      rw [← get?_eq_none_iff, get?_set, if_neg hkey]
      exact get?_eq_none_iff.mpr hk

theorem nodup_keys_update {base : Fields} (h : base.keys.Nodup) (top : Fields) :
    (base.update top).keys.Nodup := by
  induction top generalizing base with
  | nil => exact h
  | cons kv top ih => exact ih (nodup_keys_set h kv.1 kv.2)

theorem update_cons (base : Fields) (kv : String × Json) (top : Fields) :
    base.update (kv :: top) = (base.set kv.1 kv.2).update top := rfl

/-- **New fields on top**: their last value of a key, or else the value it had. -/
theorem get?_update (base top : Fields) (key : String) :
    (base.update top).get? key = ((ofMembers top).get? key <|> base.get? key) := by
  induction top generalizing base with
  | nil => simp [update, ofMembers]
  | cons kv top ih =>
    have hcons : (ofMembers (kv :: top)).get? key =
        ((ofMembers top).get? key <|> (set kv.1 kv.2 []).get? key) := ih _
    rw [update_cons, ih, hcons, get?_set, get?_set]
    cases (ofMembers top).get? key with
    | some v => rfl
    | none => by_cases hkey : key = kv.1 <;> simp [hkey]

/-- Fields without a repeated key amount to themselves. -/
theorem get?_ofMembers {fields : Fields} (h : fields.keys.Nodup) (key : String) :
    (ofMembers fields).get? key = fields.get? key := by
  induction fields with
  | nil => rfl
  | cons kv fields ih =>
    obtain ⟨k, v⟩ := kv
    obtain ⟨hk, hfields⟩ := List.nodup_cons.mp h
    rw [ofMembers, update_cons, get?_update, ih hfields, get?_set, get?_cons]
    by_cases hkey : k = key
    · subst hkey
      rw [get?_eq_none_iff.mpr hk]
      simp
    · simp [hkey, Ne.symm hkey]

/-- Values changed key by key. -/
theorem get?_map_value (f : String → Json → Json) (fields : Fields) (key : String) :
    get? key (fields.map fun kv => (kv.1, f kv.1 kv.2)) = (fields.get? key).map (f key) := by
  induction fields with
  | nil => rfl
  | cons kv fields ih =>
    obtain ⟨k, v⟩ := kv
    by_cases hk : k = key
    · simp [hk]
    · simp [hk, ih]

theorem keys_map_value (f : String → Json → Json) (fields : Fields) :
    keys (fields.map fun kv => (kv.1, f kv.1 kv.2)) = fields.keys := by
  simp [keys, Function.comp_def]

/-- An entry that is kept for its key is found as before. -/
theorem get?_filter_key {p : String → Bool} {key : String} (hkey : p key) (fields : Fields) :
    get? key (fields.filter fun kv => p kv.1) = fields.get? key := by
  induction fields with
  | nil => rfl
  | cons kv fields ih =>
    obtain ⟨k, v⟩ := kv
    by_cases hk : k = key
    · subst hk
      simp [hkey]
    · by_cases hp : p k <;> simp [hp, hk, ih]

/-- Of fields without a repeated key, those are found that are kept for their value. -/
theorem get?_filter_value {fields : Fields} (h : fields.keys.Nodup) (p : Json → Bool)
    (key : String) : get? key (fields.filter fun kv => p kv.2) = (fields.get? key).filter p := by
  induction fields with
  | nil => rfl
  | cons kv fields ih =>
    obtain ⟨k, v⟩ := kv
    obtain ⟨hk, hfields⟩ := List.nodup_cons.mp h
    by_cases hkey : k = key
    · subst hkey
      have hnone : get? k fields = none := get?_eq_none_iff.mpr hk
      by_cases hp : p v <;> simp [hp, ih hfields, hnone, Option.filter]
    · by_cases hp : p v <;> simp [hp, hkey, ih hfields]

end TsProject.Fields

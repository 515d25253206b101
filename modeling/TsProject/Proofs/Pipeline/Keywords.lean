import Mathlib.Data.List.TakeWhile
import TsProject.Proofs.Pipeline.Nulls

/-!
# Keywords on top of a request

Keywords are put on top of what a caller passes by key, and only then each field is read from the
first of its spellings that occurs. A keyword therefore counts unless an earlier spelling of its
field is in the request: then the field is read from the request alone (`pick?_update`).
`coerce_keywords` says of a whole request where the values of its fields come from, and that nothing
but this and the values of the keywords matters: they may be spelt in any other way.

A request made before is one of fields in their first spelling, and reading those gives it back
(`ofFields_toFields`).
-/

namespace TsProject.CompileRequest

variable {fields own keywords : Fields} {slot : Slot}

/-! ### One field -/

/-- The field is among the fields, in some spelling. -/
def Slot.isNamed (slot : Slot) (fields : Fields) : Bool := (pick? slot.keys fields).isSome

/-- **A field is outranked**: some spelling of it is among the caller's own fields, in front of all
its spellings among the keywords. -/
def Slot.isOutranked (slot : Slot) (own keywords : Fields) : Bool :=
  (slot.keys.takeWhile fun key => !keywords.has key).any own.has

theorem pick?_cons (key : String) (keys : List String) (fields : Fields) :
    pick? (key :: keys) fields =
      match fields.get? key with
      | some v => some (key, v)
      | none => pick? keys fields := by
  rw [pick?, List.findSome?_cons]
  cases fields.get? key <;> rfl

/-- **Picking from both**: the own fields where they come first, and the keywords otherwise. -/
theorem pick?_update (hkeys : keywords.keys.Nodup) (own : Fields) (keys : List String) :
    pick? keys (own.update keywords) =
      if (keys.takeWhile fun key => !keywords.has key).any own.has then pick? keys own
      else pick? keys keywords := by
  induction keys with
  | nil => rfl
  | cons key keys ih =>
    have hget : (own.update keywords).get? key = (keywords.get? key <|> own.get? key) := by
      rw [Fields.get?_update, Fields.get?_ofMembers hkeys]
    rw [pick?_cons, pick?_cons, pick?_cons, hget, ih, List.takeWhile_cons]
    cases hkeyword : keywords.get? key with
    | some v => simp [Fields.has, hkeyword]
    | none =>
      cases hown : own.get? key with
      | some v => simp [Fields.has, hkeyword, hown]
      | none => simp [Fields.has, hkeyword, hown]

/-- **Where a field is read from**, with keywords on top. -/
theorem Slot.pick?_update (hkeys : keywords.keys.Nodup) (slot : Slot) (own : Fields) :
    pick? slot.keys (own.update keywords) =
      pick? slot.keys (if slot.isOutranked own keywords then own else keywords) := by
  rw [CompileRequest.pick?_update hkeys, ← isOutranked]
  cases slot.isOutranked own keywords <;> rfl

theorem pick?_eq_none_iff {keys : List String} :
    pick? keys fields = none ↔ ∀ key ∈ keys, fields.get? key = none := by
  simp [pick?, List.findSome?_eq_none_iff]

/-- A field that the keywords do not name is read from the own fields. -/
theorem Slot.pick?_of_not_isNamed (hkeys : keywords.keys.Nodup)
    (hnamed : slot.isNamed keywords = false) (own : Fields) :
    pick? slot.keys (own.update keywords) = pick? slot.keys own := by
  have hnone : pick? slot.keys keywords = none := by simpa [isNamed] using hnamed
  rw [Slot.pick?_update hkeys]
  cases houtranked : slot.isOutranked own keywords with
  | true => rfl
  | false =>
    -- no spelling is in front of those of the keywords, and these are none
    have hall : slot.keys.takeWhile (fun key => !keywords.has key) = slot.keys := by
      refine List.takeWhile_eq_self_iff.mpr fun key hkey => ?_
      simp [Fields.has, pick?_eq_none_iff.mp hnone key hkey]
    have hown : pick? slot.keys own = none := by
      rw [isOutranked, hall, List.any_eq_false] at houtranked
      exact pick?_eq_none_iff.mpr fun key hkey => by simpa [Fields.has] using houtranked key hkey
    exact hnone.trans hown.symm

/-- The value of a field, from the value that is picked. -/
theorem Slot.valueIn_eq (fields : Fields) : slot.valueIn fields =
    (((pick? slot.keys fields).map (·.2)).filter isGiven).getD slot.default := by
  rw [valueIn, seen?, Option.filter_map]
  rfl

/-- A field whose value is null has it by default. -/
theorem Slot.valueIn_eq_default (h : isGiven (slot.valueIn fields) = false) :
    slot.valueIn fields = slot.default := by
  rw [valueIn] at h ⊢
  cases hseen : slot.seen? fields with
  | none => rfl
  | some kv =>
    rw [hseen] at h
    exact absurd (seen?_eq_some_iff.mp hseen).2 (by simpa using h)

/-! ### Requests with the same values -/

/-- Whether there is a problem with a value does not depend on the spelling that it stands
under. -/
theorem slotProblems_respell (hslot : slot ∈ slots) {key key' : String} {v : Json}
    (h : slot.problems (some (key, v)) = []) : slot.problems (some (key', v)) = [] := by
  simp only [slots, List.mem_cons, List.not_mem_nil, or_false] at hslot
  rcases hslot with rfl | rfl | rfl | rfl
  · cases v with
    | str s =>
      have hne : s ≠ "" := by
        rintro rfl
        cases h
      exact if_neg hne
    | _ => first | rfl | cases h
  · cases v with
    | arr items =>
      refine List.filterMap_eq_nil_iff.mpr fun x hx => ?_
      have hx := List.filterMap_eq_nil_iff.mp h x hx
      obtain ⟨item, i⟩ := x
      cases item <;> first | rfl | cases hx
    | _ => first | rfl | cases h
  · cases v <;> first | rfl | cases h
  · cases v <;> first | rfl | cases h

/-- The default of a field is no problem. -/
theorem slotProblems_default (hslot : slot ∈ slots) (key : String) :
    slot.problems (some (key, slot.default)) = [] := by
  simp only [slots, List.mem_cons, List.not_mem_nil, or_false] at hslot
  rcases hslot with rfl | rfl | rfl | rfl <;> rfl

/-- **Whether there is a problem with a field** depends on its value only. -/
theorem problems_seen?_iff (hslot : slot ∈ slots) (key : String) :
    slot.problems (slot.seen? fields) = [] ↔
      slot.problems (some (key, slot.valueIn fields)) = [] := by
  rw [Slot.valueIn]
  rcases slot.seen? fields with - | ⟨other, v⟩
  · exact iff_of_true (slotProblems_none hslot) (slotProblems_default hslot key)
  · exact ⟨slotProblems_respell hslot, slotProblems_respell hslot⟩

theorem given_of_ofFields {r : CompileRequest} (h : ofFields fields = .ok r) :
    r.given = slots.filterMap fun slot =>
      if slot.isNamed fields then slot.keys.head? else none := by
  rw [ofFields] at h
  split at h
  · obtain rfl := Except.ok.inj h
    rfl
  · cases h

/-- Requests with the same values and the same given fields are the same. -/
theorem eq_of_values {r r' : CompileRequest} (hvalues : r.values = r'.values)
    (hgiven : r.given = r'.given) : r = r' := by
  have hsame := values_eq_iff.mp hvalues
  obtain ⟨configPath, inputFiles, outputLocation, overrides, given⟩ := r
  obtain ⟨configPath', inputFiles', outputLocation', overrides', given'⟩ := r'
  simp_all

/-- **A request depends on the values** of its fields and on which of them are named. -/
theorem ofFields_of_same {fields' : Fields} (h : ∀ slot ∈ slots,
    slot.valueIn fields = slot.valueIn fields' ∧ slot.isNamed fields = slot.isNamed fields')
    {r : CompileRequest} (hr : ofFields fields = .ok r) : ofFields fields' = .ok r := by
  have hproblems : problems fields' = [] := by
    have hnone : problems fields = [] := exists_ofFields_iff.mp ⟨r, hr⟩
    rw [problems_eq_flatMap, List.flatMap_eq_nil_iff] at hnone ⊢
    intro slot hslot
    rw [problems_seen?_iff hslot "", ← (h slot hslot).1, ← problems_seen?_iff hslot]
    exact hnone slot hslot
  obtain ⟨r', hr'⟩ := exists_ofFields_iff.mpr hproblems
  have hvalues : r'.values = r.values := by
    rw [values_of_ofFields hr, values_of_ofFields hr']
    exact List.map_congr_left fun slot hslot => (h slot hslot).1.symm
  have hgiven : r'.given = r.given := by
    rw [given_of_ofFields hr, given_of_ofFields hr']
    exact List.filterMap_congr fun slot hslot => by rw [(h slot hslot).2]
  rw [hr', eq_of_values hvalues hgiven]

/-! ### Requests made before -/

/-- The first spellings of the fields. -/
def firstKeys : List String :=
  ["config_path", "input_files", "output_location", "option_overrides"]

theorem get?_toFields (r : CompileRequest) (key : String) :
    r.toFields.get? key =
      if r.given.contains key then Fields.get? key (firstKeys.zip r.values) else none := by
  have hfilter : r.toFields = (firstKeys.zip r.values).filter fun kv => r.given.contains kv.1 := rfl
  rw [hfilter]
  split_ifs with hgiven
  · exact Fields.get?_filter_key (p := r.given.contains) hgiven _
  · rw [Fields.get?_eq_none_iff, Fields.keys]
    intro hmem
    obtain ⟨kv, hkv, rfl⟩ := List.mem_map.mp hmem
    exact hgiven (List.mem_filter.mp hkv).2

/-- A field is written under its first spelling, and under no other. -/
theorem exists_first {r : CompileRequest} {v : Json} (hslot : (slot, v) ∈ slots.zip r.values) :
    ∃ key later, slot.keys = key :: later ∧ Fields.get? key (firstKeys.zip r.values) = some v ∧
      ∀ other ∈ later, Fields.get? other (firstKeys.zip r.values) = none := by
  have hkeys : Fields.keys (firstKeys.zip r.values) = firstKeys := rfl
  have hnodup : (Fields.keys (firstKeys.zip r.values)).Nodup := by
    rw [hkeys]
    decide
  obtain ⟨key, later, hcons, hmem, hlater⟩ : ∃ key later, slot.keys = key :: later ∧
      (key, v) ∈ firstKeys.zip r.values ∧ ∀ other ∈ later, other ∉ firstKeys := by
    simp only [slots, values, List.zip_cons_cons, List.zip_nil_right, List.mem_cons, Prod.mk.injEq,
      List.not_mem_nil, or_false] at hslot
    rcases hslot with ⟨rfl, rfl⟩ | ⟨rfl, rfl⟩ | ⟨rfl, rfl⟩ | ⟨rfl, rfl⟩ <;>
      exact ⟨_, _, rfl, by simp [firstKeys, values], by decide⟩
  exact ⟨key, later, hcons, Fields.get?_of_mem hnodup hmem, fun other hother =>
    Fields.get?_eq_none_iff.mpr (hlater other hother)⟩

/-- A field that was given is found under its first spelling, and under no other. -/
theorem exists_pick?_toFields {r : CompileRequest} {v : Json}
    (hslot : (slot, v) ∈ slots.zip r.values) : ∃ key, slot.keys.head? = some key ∧
      pick? slot.keys r.toFields = if r.given.contains key then some (key, v) else none := by
  obtain ⟨key, later, hkeys, hfound, hlater⟩ := exists_first hslot
  have hnone : pick? later r.toFields = none := by
    refine pick?_eq_none_iff.mpr fun other hother => ?_
    rw [get?_toFields, hlater other hother, ite_self]
  refine ⟨key, by rw [hkeys]; rfl, ?_⟩
  rw [hkeys, pick?_cons, get?_toFields, hfound, hnone]
  split_ifs <;> rfl

/-- A request is given the fields that are named. -/
theorem contains_given_iff {r : CompileRequest} (h : ofFields fields = .ok r)
    (hslot : slot ∈ slots) {key : String} (hkey : slot.keys.head? = some key) :
    r.given.contains key ↔ slot.isNamed fields := by
  rw [given_of_ofFields h, List.contains_iff_mem, List.mem_filterMap]
  constructor
  · rintro ⟨slot', hslot', hsome⟩
    split_ifs at hsome with hnamed
    obtain rfl := slot_unique hslot hslot' (List.mem_of_head? hkey) (List.mem_of_head? hsome)
    exact hnamed
  · intro hnamed
    exact ⟨slot, hslot, by rw [if_pos hnamed, hkey]⟩

/-- **The fields of a request give it back.** -/
theorem ofFields_toFields {r : CompileRequest} (h : ofFields fields = .ok r) :
    ofFields r.toFields = .ok r := by
  refine ofFields_of_same (fun slot hslot => ?_) h
  have hzip : (slot, slot.valueIn fields) ∈ slots.zip r.values := by
    have hpairs : slots.zip (slots.map (·.valueIn fields)) =
        slots.map fun slot => (slot, slot.valueIn fields) := rfl
    rw [values_of_ofFields h, hpairs]
    exact List.mem_map_of_mem hslot
  obtain ⟨key, hkey, hpick⟩ := exists_pick?_toFields hzip
  have hgiven := contains_given_iff h hslot hkey
  cases hnamed : slot.isNamed fields with
  | true =>
    rw [if_pos (hgiven.mpr hnamed)] at hpick
    refine ⟨?_, by rw [Slot.isNamed, hpick]; rfl⟩
    rw [Slot.valueIn_eq r.toFields, hpick, Option.map_some, Option.filter_some]
    split_ifs with hvalue
    · rfl
    · exact Slot.valueIn_eq_default (by simpa using hvalue)
  | false =>
    have hnone : pick? slot.keys fields = none := by simpa [Slot.isNamed] using hnamed
    rw [if_neg (by rw [hgiven, hnamed]; decide)] at hpick
    refine ⟨?_, by rw [Slot.isNamed, hpick]; rfl⟩
    rw [Slot.valueIn_eq, Slot.valueIn_eq, hpick, hnone]

/-! ### Keywords on top -/

/-- What a caller passes, as fields. -/
def Input.ownFields : Input → Fields
  | .fields fields => fields
  | .request r => r.toFields

/-- A request that is passed has been made from fields. -/
def Input.IsMade (input : Input) : Prop :=
  ∀ r, input = .request r → ∃ fields, ofFields fields = .ok r

variable {input : Input}

/-- With keywords or without, a request is read from its fields with the keywords on top. -/
theorem coerce_eq_ok_iff (hmade : input.IsMade) {r : CompileRequest} :
    coerce input keywords = .ok r ↔ ofFields (input.ownFields.update keywords) = .ok r := by
  cases input with
  | fields fields => rfl
  | request r' =>
    obtain ⟨fields, hfields⟩ := hmade r' rfl
    cases keywords with
    | cons kv keywords => rfl
    | nil =>
      have hback : ofFields (Fields.update r'.toFields []) = .ok r' := ofFields_toFields hfields
      exact (iff_of_eq (congrArg (· = _) hback)).symm

/-- **Keywords respelt**: each field has the value that it had and is outranked where it was. -/
def Respells (own keywords keywords' : Fields) : Prop :=
  ∀ slot ∈ slots, (pick? slot.keys keywords).map (·.2) = (pick? slot.keys keywords').map (·.2) ∧
    slot.isOutranked own keywords = slot.isOutranked own keywords'

theorem Respells.symm {keywords' : Fields} (h : Respells own keywords keywords') :
    Respells own keywords' keywords :=
  fun slot hslot => ⟨(h slot hslot).1.symm, (h slot hslot).2.symm⟩

/-- Keywords respelt give the same request. -/
theorem ofFields_update_of_respells {keywords' : Fields} (hkeys : keywords.keys.Nodup)
    (hkeys' : keywords'.keys.Nodup) (h : Respells own keywords keywords') {r : CompileRequest}
    (hr : ofFields (own.update keywords) = .ok r) : ofFields (own.update keywords') = .ok r := by
  refine ofFields_of_same (fun slot hslot => ?_) hr
  obtain ⟨hvalue, houtranked⟩ := h slot hslot
  have hpick : (pick? slot.keys (own.update keywords)).map (·.2) =
      (pick? slot.keys (own.update keywords')).map (·.2) := by
    rw [Slot.pick?_update hkeys, Slot.pick?_update hkeys', ← houtranked]
    cases slot.isOutranked own keywords with
    | true => rfl
    | false => exact hvalue
  refine ⟨by rw [Slot.valueIn_eq, Slot.valueIn_eq, hpick], ?_⟩
  rw [Slot.isNamed, Slot.isNamed, ← Option.isSome_map, hpick, Option.isSome_map]

/-- **Where a field has its value from.** -/
theorem Slot.valueIn_update (hkeys : keywords.keys.Nodup) (slot : Slot) (own : Fields) :
    slot.valueIn (own.update keywords) =
      if slot.isNamed keywords ∧ ¬ slot.isOutranked own keywords then slot.valueIn keywords
      else slot.valueIn own := by
  have hsame : ∀ fields, pick? slot.keys (own.update keywords) = pick? slot.keys fields →
      slot.valueIn (own.update keywords) = slot.valueIn fields := by
    intro fields hfields
    rw [valueIn_eq, hfields, valueIn_eq]
  split_ifs with h
  · refine hsame keywords ?_
    rw [Slot.pick?_update hkeys, if_neg h.2]
  · refine hsame own ?_
    cases hnamed : slot.isNamed keywords with
    | false => exact Slot.pick?_of_not_isNamed hkeys hnamed own
    | true =>
      have houtranked : slot.isOutranked own keywords := by simpa [hnamed] using h
      rw [Slot.pick?_update hkeys, if_pos houtranked]

/-- **Keywords on top of a request.** A field has the value of the keywords where these name it and
no earlier spelling of it is in the request, and that of the request otherwise, each as it would be
alone. How the keywords are spelt matters for this only. -/
theorem coerce_keywords (hmade : input.IsMade) (hkeys : keywords.keys.Nodup) :
    (∀ alone, coerce input [] = .ok alone → alone.values = slots.map (·.valueIn input.ownFields)) ∧
    (∀ alone, ofFields keywords = .ok alone → alone.values = slots.map (·.valueIn keywords)) ∧
    (∀ r, coerce input keywords = .ok r → r.values = slots.map fun slot =>
      if slot.isNamed keywords ∧ ¬ slot.isOutranked input.ownFields keywords
      then slot.valueIn keywords else slot.valueIn input.ownFields) ∧
    ∀ keywords', keywords'.keys.Nodup → Respells input.ownFields keywords keywords' →
      ∀ r, coerce input keywords = .ok r ↔ coerce input keywords' = .ok r := by
  refine ⟨fun alone halone => ?_, fun alone => values_of_ofFields, fun r hr => ?_,
    fun keywords' hkeys' hrespells r => ?_⟩
  · exact values_of_ofFields ((coerce_eq_ok_iff hmade).mp halone)
  · rw [values_of_ofFields ((coerce_eq_ok_iff hmade).mp hr)]
    exact List.map_congr_left fun slot _ => slot.valueIn_update hkeys _
  · rw [coerce_eq_ok_iff hmade, coerce_eq_ok_iff hmade]
    exact ⟨ofFields_update_of_respells hkeys hkeys' hrespells,
      ofFields_update_of_respells hkeys' hkeys hrespells.symm⟩

/-- Keywords under the spelling of the request, or an earlier one, win. -/
theorem coerce_respeltKeywords :
    let own : Fields := [("configPath", .str "a.json"), ("outputDir", .str "out")]
    let keywords : Fields := [("configPath", .str "b.json"), ("filePaths", .arr [.str "c.ts"])]
    let keywords' : Fields := [("inputFiles", .arr [.str "c.ts"]), ("config_path", .str "b.json")]
    (Input.fields own).IsMade ∧ keywords.keys.Nodup ∧ keywords'.keys.Nodup ∧
      Respells own keywords keywords' ∧ ∃ r, coerce (.fields own) keywords = .ok r ∧
        coerce (.fields own) keywords' = .ok r ∧
        r.values = [.str "b.json", .arr [.str "c.ts"], .str "out", .obj []] := by
  intro own keywords keywords'
  have hmade : (Input.fields own).IsMade := by
    rintro r ⟨⟩
  have hkeys : keywords.keys.Nodup := by decide
  have hkeys' : keywords'.keys.Nodup := by decide
  have hrespells : Respells own keywords keywords' := by
    intro slot hslot
    simp only [slots, List.mem_cons, List.not_mem_nil, or_false] at hslot
    rcases hslot with rfl | rfl | rfl | rfl <;> exact ⟨rfl, rfl⟩
  have hproblems : problems (own.update keywords) = [] := rfl
  obtain ⟨r, hr⟩ : ∃ r, coerce (.fields own) keywords = .ok r :=
    exists_ofFields_iff.mpr hproblems
  obtain ⟨-, -, hvalues, hrespelt⟩ := coerce_keywords hmade hkeys
  refine ⟨hmade, hkeys, hkeys', hrespells, r, hr, (hrespelt _ hkeys' hrespells r).mp hr, ?_⟩
  rw [hvalues r hr]
  rfl

/-- **Keywords do not always win**: the configuration of the request is under an earlier
spelling. -/
theorem not_forall_keywords_win :
    ¬ ∀ (input : Input) (keywords : Fields) (r : CompileRequest), input.IsMade →
      keywords.keys.Nodup → (∀ slot ∈ slots, (slot.keys.filter keywords.has).length ≤ 1) →
      coerce input keywords = .ok r → r.values = slots.map fun slot =>
        if slot.isNamed keywords then slot.valueIn keywords else slot.valueIn input.ownFields := by
  intro h
  have hmade : (Input.fields [("config_path", .str "a.json")]).IsMade := by
    rintro r ⟨⟩
  have hvalues := h _ [("configPath", .str "b.json")] _ hmade (by decide) (by decide) rfl
  have hpath : "a.json" = "b.json" := Json.str.inj (List.cons_eq_cons.mp hvalues).1
  exact absurd hpath (by decide)

end TsProject.CompileRequest

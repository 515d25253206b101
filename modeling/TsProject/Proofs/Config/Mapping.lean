import TsProject.Proofs.Config.Loaded

/-!
# The path mapping of a loaded configuration

`BaseFirst` lists the files of a configuration in base-first order, each with the options that it
declares. The path mapping of a loaded configuration is that of the last file of this list that
declares one (`MapsBy`, by induction on the files that are extended). Its targets are resolved
against the directory of that file where no base URL is declared, and taken as they are otherwise:
`mapping_of_load`. A base URL that is declared to be null counts as declared, so that
targets are left relative although nothing is set that they could be relative to.
-/

namespace TsProject.Config

open TsProject.Path (IsNormal)

/-! ### Base-first order -/

/-- **The files of a configuration in base-first order**, each with the options that it declares
itself: those of each base, from the first to the last, and then the file. -/
inductive BaseFirst (w : World) : (path : String) → List (String × Fields) → Prop
  | file {path : String} {fields : Fields} {doc : Document}
    (bases : List (String × List (String × Fields))) :
    readFile w path = .ok (.ok fields) → Document.ofFields fields = .ok doc →
    ((doc.bases.getD []).map fun spec => findBase w spec (Path.parent path)) =
      bases.map (fun base => .ok (some base.1)) →
    (∀ base ∈ bases, BaseFirst w base.1 base.2) →
      BaseFirst w path ((bases.map (·.2)).flatten ++ [(path, doc.compilerOptions.getD [])])

/-- **There is one order only.** -/
theorem BaseFirst.unique {w : World} {path : String} {a b : List (String × Fields)}
    (ha : BaseFirst w path a) (hb : BaseFirst w path b) : a = b := by
  induction ha generalizing b with
  | @file path fields doc bases hread hdoc hbases _ ih =>
    obtain ⟨bases', hread', hdoc', hbases', hrest'⟩ := hb
    obtain rfl := Except.ok.inj (Except.ok.inj (hread.symm.trans hread'))
    obtain rfl := Except.ok.inj (hdoc.symm.trans hdoc')
    have htargets := map_fst_eq_of_found_eq hbases hbases'
    rw [map_snd_eq_of_map_fst_eq htargets (fun base hbase b hb => ih base hbase hb) hrest']

/-! ### The last declaration -/

/-- No file declares a path mapping. -/
def MapsNothing (order : List (String × Fields)) : Prop :=
  ∀ entry ∈ order, entry.2.get? "paths" = none

/-- **The last declaration** of a path mapping: `file` declares `v`, and no file after it declares
any. -/
def MapsLast (order : List (String × Fields)) (file : String) (v : Json) : Prop :=
  ∃ before raw after, order = before ++ (file, raw) :: after ∧ raw.get? "paths" = some v ∧
    MapsNothing after

/-- **What is inherited of a path mapping** is the last declaration of one, and the directory of
the file that it stands in. -/
inductive MapsBy (order : List (String × Fields)) (e : Inherited) : Prop
  | nothing : MapsNothing order → e.mappingDir = none → e.options "paths" = none → MapsBy order e
  | last {file : String} {v : Json} : MapsLast order file v → OptionKind.mapping.Admits v →
    e.mappingDir = some (Path.parent file) → e.options "paths" = some v → MapsBy order e

theorem mapsNothing_append {first second : List (String × Fields)} (hfirst : MapsNothing first)
    (hsecond : MapsNothing second) : MapsNothing (first ++ second) :=
  List.forall_mem_append.mpr ⟨hfirst, hsecond⟩

theorem MapsLast.append_left {second : List (String × Fields)} {file : String} {v : Json}
    (h : MapsLast second file v) (first : List (String × Fields)) :
    MapsLast (first ++ second) file v := by
  obtain ⟨before, raw, after, rfl, hraw, hafter⟩ := h
  exact ⟨first ++ before, raw, after, (List.append_assoc _ _ _).symm, hraw, hafter⟩

theorem MapsLast.append_right {first second : List (String × Fields)} {file : String} {v : Json}
    (h : MapsLast first file v) (hsecond : MapsNothing second) :
    MapsLast (first ++ second) file v := by
  obtain ⟨before, raw, after, rfl, hraw, hafter⟩ := h
  exact ⟨before, raw, after ++ second, by rw [List.append_assoc, List.cons_append], hraw,
    mapsNothing_append hafter hsecond⟩

/-- **One list after another**: the last declaration is that of the second, if it has one. -/
theorem MapsBy.append {first second : List (String × Fields)} {lower upper : Inherited}
    (hlower : MapsBy first lower) (hupper : MapsBy second upper) :
    MapsBy (first ++ second) (lower.combine upper) := by
  cases hupper with
  | nothing hsecond hdir hpaths =>
    cases hlower with
    | nothing hfirst hlowerDir hlowerPaths =>
      refine .nothing (mapsNothing_append hfirst hsecond) ?_ ?_
      · simp [Inherited.combine, hdir, hlowerDir]
      · simp [Inherited.combine, hpaths, hlowerPaths]
    | last hlast hadmits hlowerDir hlowerPaths =>
      refine .last (hlast.append_right hsecond) hadmits ?_ ?_
      · simp [Inherited.combine, hdir, hlowerDir]
      · simp [Inherited.combine, hpaths, hlowerPaths]
  | last hlast hadmits hdir hpaths =>
    refine .last (hlast.append_left first) hadmits ?_ ?_
    · simp [Inherited.combine, hdir]
    · simp [Inherited.combine, hpaths]

/-- **A file by itself** passes on what it declares. -/
theorem mapsBy_own {doc : Document} {path : String} {options : Fields}
    (h : CompilerOptions.check (doc.compilerOptions.getD []) = .ok options) :
    MapsBy [(path, doc.compilerOptions.getD [])] (.own doc (Path.parent path) options) := by
  obtain ⟨hpaths, hadmits⟩ := CompilerOptions.get?_paths_of_check h
  have hresolve : ∀ v, CompilerOptions.resolveValue (Path.parent path) "paths" v = v :=
    CompilerOptions.resolveValue_of_not_mem (by decide) (by decide) _
  cases hraw : Fields.get? "paths" (doc.compilerOptions.getD []) with
  | none =>
    refine .nothing (by simpa [MapsNothing] using hraw) ?_ ?_
    · simp [Inherited.own, Fields.has, hpaths, hraw]
    · simp [Inherited.own, hpaths, hraw]
  | some v =>
    refine .last ⟨[], _, [], rfl, hraw, by simp [MapsNothing]⟩ (hadmits v hraw) ?_ ?_
    · simp [Inherited.own, Fields.has, hpaths, hraw]
    · simp [Inherited.own, hpaths, hraw, hresolve]

/-- **What a file amounts to** has the last mapping in base-first order. -/
theorem exists_baseFirst_of_inherits {w : World} {path : String} {e : Inherited}
    (h : Inherits w path e) : ∃ order, BaseFirst w path order ∧ MapsBy order e := by
  induction h with
  | @file path fields options doc bases hread hdoc hcheck hbases _ ih =>
    choose! order hbase hmaps using ih
    have hall : ∀ bases' ⊆ bases, MapsBy (bases'.map order).flatten
        (.combineAll (bases'.map (·.2))) := by
      intro bases' hsubset
      induction bases' with
      | nil => exact .nothing (by simp [MapsNothing]) rfl rfl
      | cons base bases' ih =>
        obtain ⟨hmem, hrest⟩ := List.cons_subset.mp hsubset
        rw [List.map_cons, List.map_cons, List.flatten_cons, Inherited.combineAll_cons]
        exact (hmaps base hmem).append (ih hrest)
    refine ⟨((bases.map fun base => (base.1, order base)).map (·.2)).flatten ++ _,
      .file _ hread hdoc ?_ ?_, ?_⟩
    · rw [hbases, List.map_map]
      rfl
    · exact List.forall_mem_map.mpr hbase
    · rw [List.map_map, Inherited.combineAll_concat]
      exact (hall bases (List.Subset.refl bases)).append (mapsBy_own hcheck)

/-! ### Loaded mappings -/

/-- The files of a configuration are normal paths. -/
theorem BaseFirst.isNormal {w : World} {path : String} {order : List (String × Fields)}
    (h : BaseFirst w path order) (hpath : IsNormal path) : ∀ entry ∈ order, IsNormal entry.1 := by
  induction h with
  | @file path fields doc bases _ _ hbases _ ih =>
    intro entry hentry
    rcases List.mem_append.mp hentry with hentry | hentry
    · obtain ⟨files, hfiles, hentry⟩ := List.mem_flatten.mp hentry
      obtain ⟨base, hbase, rfl⟩ := List.mem_map.mp hfiles
      obtain ⟨spec, -, hspec⟩ := List.mem_map.mp (hbases ▸ List.mem_map_of_mem hbase)
      exact ih base hbase (isNormal_of_findBase hspec) entry hentry
    · rw [List.mem_singleton.mp hentry]
      exact hpath

/-- Targets made absolute against a directory. -/
def resolveTargets (dir : String) (targets : List (String × List String)) :
    List (String × List String) :=
  targets.map fun entry => (entry.1, entry.2.map (Path.resolve dir))

/-- Targets made absolute are normal paths. -/
theorem isNormal_of_mem_resolveTargets {dir : String} {targets : List (String × List String)}
    {entry : String × List String} {target : String} (hdir : Path.isAbsolute dir)
    (hentry : entry ∈ resolveTargets dir targets) (htarget : target ∈ entry.2) :
    IsNormal target := by
  obtain ⟨declared, -, rfl⟩ := List.mem_map.mp hentry
  obtain ⟨path, -, rfl⟩ := List.mem_map.mp htarget
  exact Path.isNormal_resolve hdir path

/-- **Targets with a place**: they are left to the base URL where that is set to a text, and are
made absolute against the directory of the file that declares them otherwise. -/
def anchoredTargets (baseUrl : Option Json) (dir : String)
    (targets : List (String × List String)) : List (String × List String) :=
  if (baseUrl.bind Json.text?).isSome then targets else resolveTargets dir targets

theorem resolveMapping_ofMapping (dir : String) (targets : List (String × List String)) :
    Json.obj (CompilerOptions.resolveMapping dir
      (targets.map fun entry => (entry.1, .arr (entry.2.map .str)))) =
        .ofMapping (resolveTargets dir targets) := by
  simp [CompilerOptions.resolveMapping, Json.ofMapping, resolveTargets, Function.comp_def]

/-- **The mapping in the end** is that of the last declaration, resolved where no base URL is
declared, not even null. -/
theorem exists_targets_of_finalPaths {order : List (String × Fields)} {e : Inherited}
    {mapping : Fields} (h : MapsBy order e) (hfinal : e.finalPaths = some (.obj mapping)) :
    ∃ file declared, MapsLast order file (.ofMapping declared) ∧ Json.obj mapping =
      .ofMapping (if (e.options "baseUrl").isSome then declared
        else resolveTargets (Path.parent file) declared) := by
  rw [Inherited.finalPaths] at hfinal
  cases h with
  | nothing _ hdir hpaths =>
    rw [hdir, hpaths] at hfinal
    cases hfinal
  | @last file v hlast hadmits hdir hpaths =>
    rw [hdir, hpaths] at hfinal
    cases hadmits with
    | null => cases hbase : e.options "baseUrl" <;> simp [hbase] at hfinal
    | mapping declared =>
      refine ⟨file, declared, hlast, ?_⟩
      cases hbase : e.options "baseUrl" with
      | none =>
        rw [hbase] at hfinal
        exact (Option.some.inj hfinal).symm.trans (resolveMapping_ofMapping _ _)
      | some url =>
        rw [hbase] at hfinal
        exact (Option.some.inj hfinal).symm

variable {w : World} {path : String} {requireInputs : Bool} {c : Config} {mapping : Fields}

theorem exists_targets_of_load (h : load w path requireInputs = .ok (.ok c))
    (hmapping : c.options.get? "paths" = some (.obj mapping)) :
    ∃ order file declared, BaseFirst w c.path order ∧ MapsLast order file (.ofMapping declared) ∧
      Json.obj mapping = .ofMapping (if (c.options.get? "baseUrl").isSome then declared
        else resolveTargets (Path.parent file) declared) := by
  obtain ⟨e, hinherits, hrealizes⟩ := exists_inherits_of_load h
  obtain ⟨order, horder, hmaps⟩ := exists_baseFirst_of_inherits hinherits
  obtain ⟨file, declared, hlast, htargets⟩ :=
    exists_targets_of_finalPaths hmaps (hrealizes.paths.symm.trans hmapping)
  rw [← hrealizes.options "baseUrl" (by decide)] at htargets
  exact ⟨order, file, declared, horder, hlast, htargets⟩

/-- A base URL that is declared is a text or null. -/
theorem eq_null_or_str_of_load (h : load w path requireInputs = .ok (.ok c)) {v : Json}
    (hv : c.options.get? "baseUrl" = some v) : v = .null ∨ ∃ url, v = .str url := by
  obtain ⟨-, -, hholds⟩ := holdsPaths_of_load h
  by_cases hnull : v = .null
  · exact .inl hnull
  · obtain ⟨url, hurl, -⟩ := (hholds _ v hv).single (by decide) hnull
    exact .inr ⟨url, hurl⟩

/-- The file that declares the mapping of a loaded configuration is a normal path. -/
theorem isNormal_of_mapsLast (h : load w path requireInputs = .ok (.ok c))
    {order : List (String × Fields)} {file : String} {v : Json}
    (horder : BaseFirst w c.path order) (hlast : MapsLast order file v) : IsNormal file := by
  obtain ⟨before, raw, after, rfl, -, -⟩ := hlast
  exact horder.isNormal (isNormal_path_of_load h) (file, raw) (by simp)

/-- **The path mapping of a loaded configuration** has the patterns and the targets of the last
file in base-first order that declares one. Its targets have a place, unless the base URL is
declared to be null: then they are as they were declared, and have one only if they are absolute
already. -/
theorem mapping_of_load (h : load w path requireInputs = .ok (.ok c))
    (hmapping : c.options.get? "paths" = some (.obj mapping)) :
    ∃ order file declared, BaseFirst w c.path order ∧
      (∀ other, BaseFirst w c.path other → other = order) ∧
      MapsLast order file (.ofMapping declared) ∧
      (∀ entry ∈ resolveTargets (Path.parent file) declared, ∀ target ∈ entry.2,
        IsNormal target) ∧
      Json.obj mapping = .ofMapping (if (c.options.get? "baseUrl").isSome then declared
        else resolveTargets (Path.parent file) declared) ∧
      (Json.obj mapping =
          .ofMapping (anchoredTargets (c.options.get? "baseUrl") (Path.parent file) declared) ↔
        (c.options.get? "baseUrl" = some .null →
          resolveTargets (Path.parent file) declared = declared)) := by
  obtain ⟨order, file, declared, horder, hlast, htargets⟩ := exists_targets_of_load h hmapping
  refine ⟨order, file, declared, horder, fun other hother => hother.unique horder, hlast,
    fun entry hentry target => ?_, htargets, ?_⟩
  · have hfile := isNormal_of_mapsLast h horder hlast
    exact isNormal_of_mem_resolveTargets (Path.isAbsolute_parent hfile.isAbsolute) hentry
  · rw [htargets, Json.ofMapping_injective.eq_iff, anchoredTargets]
    cases hbase : c.options.get? "baseUrl" with
    | none => simp
    | some v =>
      rcases eq_null_or_str_of_load h hbase with rfl | ⟨url, rfl⟩ <;>
        simp [Json.text?, eq_comm]

/-- A configuration that takes its mapping from a file of another directory. -/
def sharedMapping : World :=
  { nodes := [
      (["shared"], .dir),
      (["shared", "base.json"], plainFile
        "\x7b\"compilerOptions\": \x7b\"paths\": \x7b\"a\": [\"b\"]\x7d\x7d\x7d"),
      (["tsconfig.json"], plainFile
        "\x7b\"extends\": \"./shared/base.json\", \"files\": []\x7d")] }

theorem load_sharedMapping : (load sharedMapping "/tsconfig.json" false).toOption.any fun answer =>
    answer.toOption.any fun c =>
      match c.options.get? "paths" with
      | some (.obj _) => true
      | _ => false := by
  decide +kernel

/-- The mapping of the other file, with a place in its directory. -/
theorem mapping_sharedMapping : ∃ c mapping,
    load sharedMapping "/tsconfig.json" false = .ok (.ok c) ∧
      c.options.get? "paths" = some (.obj mapping) ∧
      ∃ order file declared, BaseFirst sharedMapping c.path order ∧
        MapsLast order file (.ofMapping declared) ∧
        Json.obj mapping = .ofMapping (if (c.options.get? "baseUrl").isSome then declared
          else resolveTargets (Path.parent file) declared) := by
  obtain ⟨answer, hload, hanswer⟩ := exists_ok_of_any load_sharedMapping
  obtain ⟨c, rfl, hisObject⟩ := exists_ok_of_any hanswer
  split at hisObject
  · rename_i mapping hmapping
    obtain ⟨order, file, declared, horder, -, hlast, -, htargets, -⟩ :=
      mapping_of_load hload hmapping
    exact ⟨c, mapping, hload, hmapping, order, file, declared, horder, hlast, htargets⟩
  · cases hisObject

/-- A configuration with a mapping and a base URL that is null. -/
def nullBaseUrl : World :=
  { nodes := [
      (["a.ts"], plainFile ""),
      (["tsconfig.json"], plainFile
        ("\x7b\"compilerOptions\": \x7b\"baseUrl\": null, " ++
          "\"paths\": \x7b\"a\": [\"b\"]\x7d\x7d, \"files\": [\"a.ts\"]\x7d"))] }

theorem load_nullBaseUrl : (load nullBaseUrl "/tsconfig.json" true).toOption.any fun answer =>
    answer.toOption.any fun c =>
      match c.options.get? "baseUrl", c.options.get? "paths" with
      | some .null, some (.obj [(_, .arr [.str target])]) => !Path.isAbsolute target
      | _, _ => false := by
  decide +kernel

/-- With a base URL that is null, targets are left without a place. -/
theorem not_forall_targets_anchored :
    ¬ ∀ (w : World) (path : String) (requireInputs : Bool) (c : Config) (mapping : Fields),
      load w path requireInputs = .ok (.ok c) → c.options.get? "paths" = some (.obj mapping) →
      ∃ order file declared, BaseFirst w c.path order ∧ MapsLast order file (.ofMapping declared) ∧
        Json.obj mapping =
          .ofMapping (anchoredTargets (c.options.get? "baseUrl") (Path.parent file) declared) := by
  intro h
  obtain ⟨answer, hload, hanswer⟩ := exists_ok_of_any load_nullBaseUrl
  obtain ⟨c, rfl, hrelative⟩ := exists_ok_of_any hanswer
  split at hrelative
  · rename_i pattern target hbase hpaths
    obtain ⟨order, file, declared, horder, hlast, htargets⟩ := h _ _ _ _ _ hload hpaths
    have hfile := isNormal_of_mapsLast hload horder hlast
    have hresolved : Json.ofMapping [(pattern, [target])] =
        .ofMapping (resolveTargets (Path.parent file) declared) := by
      rw [hbase] at htargets
      exact htargets
    have htarget : [(pattern, [target])] = resolveTargets (Path.parent file) declared :=
      Json.ofMapping_injective hresolved
    have hnormal : IsNormal target := isNormal_of_mem_resolveTargets
      (Path.isAbsolute_parent hfile.isAbsolute) (htarget ▸ List.mem_singleton_self _)
      (List.mem_singleton_self target)
    rw [hnormal.isAbsolute] at hrelative
    cases hrelative
  · cases hrelative

end TsProject.Config

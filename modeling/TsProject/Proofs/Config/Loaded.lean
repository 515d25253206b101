import Mathlib.Data.Option.Basic
import TsProject.Proofs.Config.Collect
import TsProject.Proofs.Options.Paths

/-!
# Options of loaded configurations

What can be relied on in the options of a configuration that has been loaded: no option stands
there twice, and all paths are normal, because every file resolves its own against its own
directory (`Inherits.exists_own`, by induction on the files that are extended).
-/

namespace TsProject

open TsProject.Path (IsNormal)

/-! ### What is inherited -/

/-- An option of values on top of one another is that of one of them. -/
theorem Inherited.exists_mem_of_combineAll {values : List Inherited} {key : String} {v : Json}
    (h : (combineAll values).options key = some v) : ∃ e ∈ values, e.options key = some v := by
  induction values with
  | nil => cases h
  | cons e values ih =>
    rw [combineAll_cons] at h
    rcases (Option.orElse_eq_some _ _ _).mp h with hupper | ⟨-, hlower⟩
    · obtain ⟨upper, hmem, hupper⟩ := ih hupper
      exact ⟨upper, List.mem_cons_of_mem _ hmem, hupper⟩
    · exact ⟨e, List.mem_cons_self, hlower⟩

/-- **Every option that a file amounts to** is one that a file declares itself, in a directory
with an absolute path. -/
theorem Inherits.exists_own {w : World} {path : String} {e : Inherited} (h : Inherits w path e)
    (hpath : IsNormal path) {key : String} {v : Json} (hv : e.options key = some v) :
    ∃ dir raw options declared, Path.isAbsolute dir ∧ CompilerOptions.check raw = .ok options ∧
      options.get? key = some declared ∧ CompilerOptions.resolveValue dir key declared = v := by
  induction h with
  | @file path fields options doc bases _ _ hcheck hbases _ ih =>
    obtain ⟨upper, hmem, hupper⟩ := Inherited.exists_mem_of_combineAll hv
    rcases List.mem_append.mp hmem with hmem | hmem
    · obtain ⟨base, hbase, rfl⟩ := List.mem_map.mp hmem
      -- the file of a base is one that has been found
      have hfound : Except.ok (some base.1) ∈
          (doc.bases.getD []).map fun spec => Config.findBase w spec (Path.parent path) :=
        hbases ▸ List.mem_map_of_mem hbase
      obtain ⟨spec, -, hspec⟩ := List.mem_map.mp hfound
      exact ih base hbase (Config.isNormal_of_findBase hspec) hupper
    · obtain rfl := List.mem_singleton.mp hmem
      obtain ⟨declared, hdeclared, hresolved⟩ := Option.map_eq_some_iff.mp hupper
      exact ⟨_, _, options, declared, Path.isAbsolute_parent hpath.isAbsolute, hcheck, hdeclared,
        hresolved⟩

/-- **Inherited options hold normal paths.** -/
theorem Inherits.holdsPaths {w : World} {path : String} {e : Inherited} (h : Inherits w path e)
    (hpath : IsNormal path) {key : String} {v : Json} (hv : e.options key = some v) :
    HoldsPaths IsNormal key v := by
  obtain ⟨dir, raw, options, declared, hdir, hcheck, hdeclared, rfl⟩ := h.exists_own hpath hv
  have hsettled := CompilerOptions.isSettled_of_check hcheck hdeclared
  exact (HoldsPaths.of_isOption hsettled.isOption).resolveValue hdir

/-! ### Loaded options -/

namespace Effective

theorem nodup_keys_ofLayers (layers : List Layer) : (ofLayers layers).options.keys.Nodup := by
  have hfold : ∀ (layers : List Layer) (e : Effective), e.options.keys.Nodup →
      (layers.foldl put e).options.keys.Nodup := by
    intro layers
    induction layers with
    | nil => exact fun e he => he
    | cons layer layers ih => exact fun e he => ih _ (Fields.nodup_keys_update he layer.options)
  exact hfold layers {} List.nodup_nil

theorem nodup_keys_of_finalOptions {e : Effective} {options : Fields}
    (h : e.finalOptions = .ok options) (hkeys : e.options.keys.Nodup) : options.keys.Nodup := by
  rw [finalOptions] at h
  split at h
  · exact Except.ok.inj h ▸ hkeys
  · split_ifs at h with hbase
    · exact Except.ok.inj h ▸ hkeys
    · split at h
      · exact Except.ok.inj h ▸ Fields.nodup_keys_set hkeys _ _
      · cases h

end Effective

namespace Config

variable {w : World} {path : String} {requireInputs : Bool} {c : Config}

/-- **What has been loaded** was found, read and collected without problems, and finished. -/
theorem exists_finish_of_load (h : load w path requireInputs = .ok (.ok c)) :
    ∃ located fields collected, locate w path = .ok located ∧
      readFile w located = .ok (.ok fields) ∧ collect w located fields = .ok collected ∧
      collected.problems = [] ∧ finish w located requireInputs collected.layers.length
        (Effective.ofLayers collected.layers) = .ok (.ok c) := by
  obtain ⟨located, hlocated, h⟩ := bind_ok_iff.mp h
  obtain ⟨outcome, hread, h⟩ := bind_ok_iff.mp h
  cases outcome with
  | error failure => cases Except.ok.inj h
  | ok fields =>
    obtain ⟨collected, hcollected, h⟩ := bind_ok_iff.mp h
    split_ifs at h with hproblems
    · exact ⟨located, fields, collected, hlocated, hread, hcollected,
        List.isEmpty_iff.mp hproblems, h⟩
    · cases Except.ok.inj h

/-- What has been collected without problems amounts to what the file amounts to. -/
theorem inherits_of_collect {located : String} {fields : Fields} {collected : Collected}
    (hlocated : locate w path = .ok located) (hread : readFile w located = .ok (.ok fields))
    (hcollected : collect w located fields = .ok collected) (hproblems : collected.problems = []) :
    Inherits w located (Effective.ofLayers collected.layers).inherited := by
  have hfile : IsConfigFile w located := ⟨isNormal_of_locate hlocated, fields, hread⟩
  rw [Effective.inherited_ofLayers]
  exact inherits_of_collectFrom hread (hasRoom_singleton hfile) hcollected hproblems

theorem finalOptions_of_finish {layerCount : Nat} {e : Effective}
    (h : finish w path requireInputs layerCount e = .ok (.ok c)) :
    e.finalOptions = .ok c.options ∧ c.baseDir = Path.parent path := by
  obtain ⟨options, hoptions, h⟩ := bind_ok_iff.mp h
  dsimp only at h
  split at h
  · cases Except.ok.inj h
  · cases h
  · split_ifs at h with hempty hcause
    · cases Except.ok.inj h
    · cases Except.ok.inj h
    · obtain rfl := Except.ok.inj (Except.ok.inj h)
      exact ⟨hoptions, rfl⟩

/-- **What a loaded configuration amounts to.** -/
theorem exists_inherits_of_load (h : load w path requireInputs = .ok (.ok c)) :
    ∃ e, Inherits w c.path e ∧ c.Realizes e := by
  obtain ⟨located, fields, collected, hlocated, hread, hcollected, hproblems, hfinish⟩ :=
    exists_finish_of_load h
  obtain ⟨hpath, hrealizes⟩ := realizes_of_finish hfinish
  exact ⟨_, hpath ▸ inherits_of_collect hlocated hread hcollected hproblems, hrealizes⟩

/-- The path of a loaded configuration is normal. -/
theorem isNormal_path_of_load (h : load w path requireInputs = .ok (.ok c)) :
    IsNormal c.path := by
  obtain ⟨located, _, _, hlocated, -, -, -, hfinish⟩ := exists_finish_of_load h
  exact (realizes_of_finish hfinish).1 ▸ isNormal_of_locate hlocated

/-- **The options of a loaded configuration** stand there once each and hold normal paths, and
its directory is an absolute path. -/
theorem holdsPaths_of_load (h : load w path requireInputs = .ok (.ok c)) :
    Path.isAbsolute c.baseDir ∧ c.options.keys.Nodup ∧
      ∀ key v, c.options.get? key = some v → HoldsPaths IsNormal key v := by
  obtain ⟨located, fields, collected, hlocated, hread, hcollected, hproblems, hfinish⟩ :=
    exists_finish_of_load h
  obtain ⟨hoptions, hbaseDir⟩ := finalOptions_of_finish hfinish
  have hnormal := isNormal_of_locate hlocated
  have hinherits := inherits_of_collect hlocated hread hcollected hproblems
  refine ⟨hbaseDir ▸ Path.isAbsolute_parent hnormal.isAbsolute,
    Effective.nodup_keys_of_finalOptions hoptions (Effective.nodup_keys_ofLayers _), ?_⟩
  intro key v hv
  by_cases hkey : key = "paths"
  · subst hkey
    exact .of_not_mem (by decide) (by decide)
  · rw [(get?_of_finalOptions hoptions).1 key hkey] at hv
    exact hinherits.holdsPaths hnormal hv

end Config

end TsProject

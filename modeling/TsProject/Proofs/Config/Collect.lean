import TsProject.Proofs.Config.Inheritance

/-!
# Loading computes inheritance

A collection without problems has read every base of every file on the way, and its layers
amount to what the file amounts to: `inherits_of_collectFrom`, by induction on the files that may
still be gone down. They cannot run out, because the files of a chain are different and
`length_le_maxChain` bounds them. `load_inherits` carries this over to loaded configurations.
-/

namespace TsProject.Config

/-! ### Steps of a collection -/

section Steps

variable {w : World} {collected : Collected} {chain : List String} {path spec baseDir : String}

theorem append_problems_eq_nil_iff {a b : Collected} :
    (a ++ b).problems = [] ↔ a.problems = [] ∧ b.problems = [] :=
  List.append_eq_nil_iff

theorem append_layers (a b : Collected) : (a ++ b).layers = a.layers ++ b.layers := rfl

/-- **A base without problems** is found, new to the chain, read and collected. -/
theorem exists_target_of_collectBase
    {descend : String → Fields → List String → Except Fault Collected}
    (h : collectBase w descend baseDir chain spec = .ok collected)
    (hproblems : collected.problems = []) :
    ∃ target fields, findBase w spec baseDir = .ok (some target) ∧ target ∉ chain ∧
      readFile w target = .ok (.ok fields) ∧
      descend target fields (chain ++ [target]) = .ok collected := by
  obtain ⟨found, hfound, h⟩ := bind_ok_iff.mp h
  cases found with
  | none =>
    obtain rfl := Except.ok.inj h
    cases hproblems
  | some target =>
    dsimp only at h
    split_ifs at h with hchain
    · obtain rfl := Except.ok.inj h
      cases hproblems
    · obtain ⟨outcome, hread, h⟩ := bind_ok_iff.mp h
      cases outcome with
      | error failure =>
        obtain rfl := Except.ok.inj h
        cases hproblems
      | ok fields => exact ⟨target, fields, hfound, by simpa using hchain, hread, h⟩

/-- A document's own part without problems is its own layer. -/
theorem exists_options_of_ownLayer {doc : Document} (h : (ownLayer doc path).problems = []) :
    ∃ options, CompilerOptions.check (doc.compilerOptions.getD []) = .ok options ∧
      (ownLayer doc path).layers.map Layer.inherited = [.own doc (Path.parent path) options] := by
  rw [ownLayer] at h ⊢
  cases hlayer : Layer.ofDocument doc path with
  | error found =>
    rw [hlayer] at h
    exact absurd (List.map_eq_nil_iff.mp h) (ne_nil_of_ofDocument_eq_error hlayer)
  | ok layer =>
    obtain ⟨options, hcheck, hown⟩ := exists_own_of_ofDocument hlayer
    exact ⟨options, hcheck, by simp [hown]⟩

/-- **Bases without problems**, collected one after the other. -/
theorem exists_bases_of_collectBases {collectOne : String → Except Fault Collected}
    {specs : List String}
    (hone : ∀ spec collected, collectOne spec = .ok collected → collected.problems = [] →
      ∃ target, findBase w spec baseDir = .ok (some target) ∧
        Inherits w target (.combineAll (collected.layers.map Layer.inherited)))
    (h : collectBases collectOne specs = .ok collected) (hproblems : collected.problems = []) :
    ∃ bases : List (String × Inherited),
      (specs.map fun spec => findBase w spec baseDir) =
        bases.map (fun base => .ok (some base.1)) ∧
      (∀ base ∈ bases, Inherits w base.1 base.2) ∧
      Inherited.combineAll (collected.layers.map Layer.inherited) =
        .combineAll (bases.map (·.2)) := by
  induction specs generalizing collected with
  | nil =>
    obtain rfl := Except.ok.inj h
    exact ⟨[], rfl, by simp, rfl⟩
  | cons spec specs ih =>
    obtain ⟨first, hfirst, h⟩ := bind_ok_iff.mp h
    obtain ⟨others, hothers, h⟩ := bind_ok_iff.mp h
    obtain rfl := Except.ok.inj h
    obtain ⟨hfirstNone, hothersNone⟩ := append_problems_eq_nil_iff.mp hproblems
    obtain ⟨target, htarget, hinherits⟩ := hone spec first hfirst hfirstNone
    obtain ⟨bases, htargets, hbases, hvalues⟩ := ih hothers hothersNone
    refine ⟨(target, .combineAll (first.layers.map Layer.inherited)) :: bases, ?_, ?_, ?_⟩
    · rw [List.map_cons, List.map_cons, htarget, htargets]
    · rintro base hbase
      rcases List.mem_cons.mp hbase with rfl | hbase
      · exact hinherits
      · exact hbases base hbase
    · rw [append_layers, List.map_append, Inherited.combineAll_append, hvalues, List.map_cons,
        Inherited.combineAll_cons]

end Steps

/-! ### Whole collections -/

theorem ne_nil_of_ofFields_eq_error {fields : Fields} {found : List ShapeProblem}
    (h : Document.ofFields fields = .error found) : found ≠ [] := by
  rw [Document.ofFields] at h
  split at h
  · cases h
  · rename_i hsome
    rintro rfl
    exact hsome (Except.error.inj h)

/-- **A collection without problems** amounts to what the file amounts to. -/
theorem inherits_of_collectFrom {w : World} {fuel : Nat} {path : String} {fields : Fields}
    {chain : List String} {collected : Collected} (hread : readFile w path = .ok (.ok fields))
    (hroom : HasRoom w chain fuel) (h : collectFrom w fuel path fields chain = .ok collected)
    (hproblems : collected.problems = []) :
    Inherits w path (.combineAll (collected.layers.map Layer.inherited)) := by
  induction fuel generalizing path fields chain collected with
  | zero =>
    obtain ⟨n, hn⟩ := hroom.exists_succ
    cases hn
  | succ fuel ih =>
    rw [collectFrom] at h
    cases hdoc : Document.ofFields fields with
    | error found =>
      rw [hdoc] at h
      obtain rfl := Except.ok.inj h
      exact absurd (List.map_eq_nil_iff.mp hproblems) (ne_nil_of_ofFields_eq_error hdoc)
    | ok doc =>
      rw [hdoc] at h
      obtain ⟨bases, hbases, h⟩ := bind_ok_iff.mp h
      obtain rfl := Except.ok.inj h
      obtain ⟨hbasesNone, hownNone⟩ := append_problems_eq_nil_iff.mp hproblems
      obtain ⟨options, hcheck, hown⟩ := exists_options_of_ownLayer hownNone
      have hone : ∀ spec collected,
          collectBase w (collectFrom w fuel) (Path.parent path) chain spec = .ok collected →
          collected.problems = [] → ∃ target, findBase w spec (Path.parent path) =
            .ok (some target) ∧
              Inherits w target (.combineAll (collected.layers.map Layer.inherited)) := by
        intro spec collected hcollect hnone
        obtain ⟨target, targetFields, hfound, hnew, htargetRead, hdescend⟩ :=
          exists_target_of_collectBase hcollect hnone
        have hfile : IsConfigFile w target := ⟨isNormal_of_findBase hfound, _, htargetRead⟩
        exact ⟨target, hfound, ih htargetRead (hroom.append hnew hfile) hdescend hnone⟩
      obtain ⟨targets, htargets, hinherits, hvalues⟩ :=
        exists_bases_of_collectBases hone hbases hbasesNone
      have hsum : Inherited.combineAll ((bases ++ ownLayer doc path).layers.map Layer.inherited) =
          .combineAll (targets.map (·.2) ++ [.own doc (Path.parent path) options]) := by
        rw [append_layers, List.map_append, Inherited.combineAll_append, hvalues, hown,
          Inherited.combineAll_append]
      rw [hsum]
      exact .file targets hread hdoc hcheck htargets hinherits

/-! ### Loading -/

/-- **What a loaded configuration has of its inheritance**: everything that is declared, with
the targets of the path mapping resolved and with defaults where nothing is declared. -/
structure Realizes (c : Config) (e : Inherited) : Prop where
  options : ∀ key, key ≠ "paths" → c.options.get? key = e.options key
  paths : c.options.get? "paths" = e.finalPaths
  files : c.files = e.files
  incl : c.incl = (e.incl <|>
    if e.files.isNone then some [Path.resolve c.baseDir "**/*"] else none).getD []
  excl : c.excl = e.excl.getD (Effective.implicitExclude c.baseDir c.options)

theorem get?_of_finalOptions {e : Effective} {options : Fields}
    (h : e.finalOptions = .ok options) :
    (∀ key, key ≠ "paths" → options.get? key = e.inherited.options key) ∧
      options.get? "paths" = e.inherited.finalPaths := by
  rw [Effective.finalOptions] at h
  rw [Inherited.finalPaths]
  dsimp only [Effective.inherited]
  cases hdir : e.mappingDir with
  | none =>
    rw [hdir] at h
    obtain rfl := Except.ok.inj h
    exact ⟨fun key _ => rfl, rfl⟩
  | some dir =>
    rw [hdir] at h
    dsimp only at h
    -- targets are resolved only without a directory of their own
    cases hbase : e.options.get? "baseUrl" with
    | some url =>
      rw [Fields.has, hbase] at h
      obtain rfl := Except.ok.inj h
      exact ⟨fun key _ => rfl, rfl⟩
    | none =>
      rw [Fields.has, hbase] at h
      simp only [Option.isSome_none, Bool.false_eq_true, if_false] at h
      split at h
      · rename_i mapping hmapping
        obtain rfl := Except.ok.inj h
        refine ⟨fun key hkey => ?_, ?_⟩
        · rw [Fields.get?_set, if_neg hkey]
        · rw [Fields.get?_set, if_pos rfl, hmapping]
      · cases h

theorem getD_include? (e : Effective) (dir : String) :
    (e.include? dir).getD [] = (e.inherited.incl <|>
      if e.inherited.files.isNone then some [Path.resolve dir "**/*"] else none).getD [] := by
  cases hfiles : e.files <;> cases hincl : e.incl <;>
    simp [Effective.include?, Effective.inherited, hfiles, hincl]

/-- **A finished configuration** has what its layers declare. -/
theorem realizes_of_finish {w : World} {path : String} {requireInputs : Bool} {layerCount : Nat}
    {e : Effective} {c : Config} (h : finish w path requireInputs layerCount e = .ok (.ok c)) :
    c.path = path ∧ c.Realizes e.inherited := by
  obtain ⟨options, hoptions, h⟩ := bind_ok_iff.mp h
  obtain ⟨hget, hpaths⟩ := get?_of_finalOptions hoptions
  dsimp only at h
  split at h
  · cases Except.ok.inj h
  · cases h
  · split_ifs at h with hempty hcause
    · cases Except.ok.inj h
    · cases Except.ok.inj h
    · obtain rfl := Except.ok.inj (Except.ok.inj h)
      exact ⟨rfl, hget, hpaths, rfl, getD_include? e _, rfl⟩

/-- **Loading computes inheritance.** Whatever a configuration is loaded from, its file amounts
to one thing, and the configuration has that. -/
theorem load_inherits {w : World} {path : String} {requireInputs : Bool} {c : Config}
    (h : load w path requireInputs = .ok (.ok c)) :
    ∃ e, Inherits w c.path e ∧ (∀ other, Inherits w c.path other → other = e) ∧ c.Realizes e := by
  obtain ⟨located, hlocated, h⟩ := bind_ok_iff.mp h
  obtain ⟨outcome, hread, h⟩ := bind_ok_iff.mp h
  cases outcome with
  | error failure => cases Except.ok.inj h
  | ok fields =>
    obtain ⟨collected, hcollected, h⟩ := bind_ok_iff.mp h
    split_ifs at h with hproblems
    · have hfile : IsConfigFile w located := ⟨isNormal_of_locate hlocated, fields, hread⟩
      have hinherits := inherits_of_collectFrom hread (hasRoom_singleton hfile) hcollected
        (List.isEmpty_iff.mp hproblems)
      obtain ⟨hpath, hrealizes⟩ := realizes_of_finish h
      rw [Effective.inherited_ofLayers] at hrealizes
      rw [hpath]
      exact ⟨_, hinherits, fun other hother => hother.unique hinherits, hrealizes⟩
    · cases Except.ok.inj h

/-- A file of letters of the basic alphabet. -/
def plainFile (text : String) : Node := .file (text.toList.map fun c => c.toNat.toUInt8) false

/-- Two files that extend the same one, and a file that extends both. -/
def diamond : World :=
  { nodes := [
      (["base.json"], plainFile "\x7b\"files\": []\x7d"),
      (["left.json"], plainFile "\x7b\"extends\": \"./base.json\"\x7d"),
      (["right.json"], plainFile "\x7b\"extends\": \"./base.json\", \"files\": null\x7d"),
      (["tsconfig.json"], plainFile "\x7b\"extends\": [\"./left.json\", \"./right.json\"]\x7d")] }

/-- The file on top of a diamond is loaded, and has what it inherits: the empty list of files at
the bottom, which null does not replace. -/
theorem diamond_inherits : ∃ c, load diamond "/tsconfig.json" false = .ok (.ok c) ∧
    c.files = some [] ∧ ∃ e, Inherits diamond c.path e ∧ c.Realizes e := by
  have hfiles : ((load diamond "/tsconfig.json" false).toOption.bind Except.toOption).map
      Config.files = some (some []) := by decide +kernel
  cases hload : load diamond "/tsconfig.json" false with
  | error fault => simp [hload, Except.toOption] at hfiles
  | ok outcome =>
    cases outcome with
    | error failure => simp [hload, Except.toOption] at hfiles
    | ok c =>
      obtain ⟨e, hinherits, -, hrealizes⟩ := load_inherits hload
      rw [hload] at hfiles
      exact ⟨c, rfl, Option.some.inj hfiles, e, hinherits, hrealizes⟩

end TsProject.Config

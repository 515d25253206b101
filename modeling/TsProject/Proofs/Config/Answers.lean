import TsProject.Proofs.Config.Extended
import TsProject.Proofs.Config.Loaded
import TsProject.Proofs.Selection.Select

/-!
# When loading answers

Loading answers with a configuration or with an error, unless one of the files it comes to cannot
be looked at (`IsSound`) or what they amount to cannot be finished (`Inherited.IsFinishable`).
These are all the exceptions: `load_answers_iff`.
-/

namespace TsProject

open Relation (ReflTransGen)

/-! ### Reading -/

theorem World.existing_eq_embeddedNull_iff {w : World} {path : String} :
    w.existing path = .error .embeddedNull ↔ '\x00' ∈ path.toList := by
  by_cases hnull : '\x00' ∈ path.toList
  · simp [existing, find, hnull, bind, Except.bind]
  · rw [existing, find, if_neg (by simpa using hnull)]
    cases w.lead true path with
    | error cause => simp [Except.mapError, bind, Except.bind, hnull]
    | ok spot =>
      simp only [Except.mapError, bind, Except.bind, hnull, iff_false]
      split_ifs <;> simp

theorem World.readText_eq_embeddedNull_iff {w : World} {path : String} :
    w.readText path = .error (.access .embeddedNull) ↔ '\x00' ∈ path.toList := by
  rw [← existing_eq_embeddedNull_iff]
  have hbytes : w.readText path = .error (.access .embeddedNull) ↔
      w.readBytes path = .error .embeddedNull := by
    rw [readText]
    cases w.readBytes path with
    | error e => simp [bind, Except.bind, Except.mapError]
    | ok bytes =>
      cases hdecode : Utf8.decode bytes <;>
        simp [bind, Except.bind, pure, Except.pure, Except.mapError, hdecode]
  rw [hbytes, readBytes]
  cases w.existing path with
  | error e => simp [bind, Except.bind]
  | ok spot =>
    simp only [bind, Except.bind]
    split <;> simp

namespace Config

/-- The data of a text can be read unless a number is too long. -/
theorem exists_parseText_iff {path text : String} :
    (∃ outcome, parseText path text = .ok outcome) ↔
      ∀ digits, Json.readRelaxed text ≠ .error (.tooManyDigits digits) := by
  unfold parseText
  cases Json.readRelaxed text with
  | ok v => cases v <;> simp
  | error e => cases e <;> simp

/-- **Reading a file** answers, unless the path holds a null character or the text a number that
is too long. -/
theorem exists_readFile_iff {w : World} {path : String} :
    (∃ outcome, readFile w path = .ok outcome) ↔ '\x00' ∉ path.toList ∧
      ∀ text digits, w.readText path = .ok text →
        Json.readRelaxed text ≠ .error (.tooManyDigits digits) := by
  rw [← World.readText_eq_embeddedNull_iff]
  cases htext : w.readText path with
  | ok text =>
    have hread : readFile w path = parseText path text := by rw [readFile, htext]
    rw [hread, exists_parseText_iff]
    exact ⟨fun h => ⟨by simp, fun other digits heq => Except.ok.inj heq ▸ h digits⟩,
      fun h digits => h.2 text digits rfl⟩
  | error e =>
    rw [readFile, htext]
    cases e with
    | decoding e => simp
    | access e =>
      cases e with
      | embeddedNull => simp
      | refused e => by_cases hmissing : e.cause = .noSuchFile <;> simp [hmissing]

/-! ### Collecting -/

/-- **A file that can be looked at**: its path holds no null character and its text no number
that is too long, and where it is a configuration, the system refuses no search for its bases. -/
structure IsSound (w : World) (file : String) : Prop where
  noNull : '\x00' ∉ file.toList
  numbers : ∀ text digits, w.readText file = .ok text →
    Json.readRelaxed text ≠ .error (.tooManyDigits digits)
  bases : ∀ fields doc, readFile w file = .ok (.ok fields) → Document.ofFields fields = .ok doc →
    ∀ spec ∈ doc.bases.getD [], ∃ found, findBase w spec (Path.parent file) = .ok found

section Collecting

variable {w : World} {path file spec baseDir : String} {chain : List String} {fuel : Nat}
  {fields : Fields} {collected : Collected}

theorem IsSound.exists_readFile (h : IsSound w file) : ∃ outcome, readFile w file = .ok outcome :=
  exists_readFile_iff.mpr ⟨h.noNull, h.numbers⟩

/-- A file that is no configuration can be looked at when it can be read. -/
theorem isSound_of_readFile_eq_error {failure : ReadFailure}
    (h : readFile w file = .ok (.error failure)) : IsSound w file where
  noNull := (exists_readFile_iff.mp ⟨_, h⟩).1
  numbers := (exists_readFile_iff.mp ⟨_, h⟩).2
  bases fields doc hread := by cases h.symm.trans hread

theorem exists_collectBases {collectOne : String → Except Fault Collected} {specs : List String}
    (h : ∀ spec ∈ specs, ∃ collected, collectOne spec = .ok collected) :
    ∃ collected, collectBases collectOne specs = .ok collected := by
  induction specs with
  | nil => exact ⟨_, rfl⟩
  | cons spec specs ih =>
    obtain ⟨first, hfirst⟩ := h spec (by simp)
    obtain ⟨others, hothers⟩ := ih fun spec hspec => h spec (by simp [hspec])
    exact ⟨first ++ others, by rw [collectBases, hfirst, hothers]; rfl⟩

theorem exists_of_collectBases {collectOne : String → Except Fault Collected}
    {specs : List String} (h : collectBases collectOne specs = .ok collected)
    (hspec : spec ∈ specs) : ∃ one, collectOne spec = .ok one := by
  induction specs generalizing collected with
  | nil => cases hspec
  | cons other specs ih =>
    obtain ⟨first, hfirst, h⟩ := bind_ok_iff.mp h
    obtain ⟨others, hothers, -⟩ := bind_ok_iff.mp h
    rcases List.mem_cons.mp hspec with rfl | hspec
    · exact ⟨first, hfirst⟩
    · exact ih hothers hspec

/-- **A collection answers** when every file that it can come to can be looked at. -/
theorem exists_collectFrom (fuel : Nat) (hread : readFile w path = .ok (.ok fields))
    (h : ∀ file, ReflTransGen (Extends w) path file → IsSound w file) (chain : List String) :
    ∃ collected, collectFrom w fuel path fields chain = .ok collected := by
  induction fuel generalizing path fields chain with
  | zero => exact ⟨_, rfl⟩
  | succ fuel ih =>
    rw [collectFrom]
    cases hdoc : Document.ofFields fields with
    | error problems => exact ⟨_, rfl⟩
    | ok doc =>
      suffices hbases : ∃ collected, collectBases (collectBase w (collectFrom w fuel)
          (Path.parent path) chain) (doc.bases.getD []) = .ok collected by
        obtain ⟨collected, hcollected⟩ := hbases
        exact ⟨collected ++ ownLayer doc path, by dsimp only; rw [hcollected]; rfl⟩
      refine exists_collectBases fun spec hspec => ?_
      obtain ⟨found, hfound⟩ := (h path .refl).bases fields doc hread hdoc spec hspec
      rw [collectBase, hfound]
      cases found with
      | none => exact ⟨_, rfl⟩
      | some target =>
        have hextends : Extends w path target := .base hread hdoc hspec hfound
        obtain ⟨outcome, htarget⟩ := (h target (.single hextends)).exists_readFile
        by_cases hchain : target ∈ chain
        · exact ⟨.problem (.circular (chain ++ [target])),
            by simp [bind, Except.bind, hchain, pure, Except.pure]⟩
        · cases outcome with
          | error failure =>
            exact ⟨.problem (.unreadable failure),
              by simp [bind, Except.bind, hchain, htarget, pure, Except.pure]⟩
          | ok targetFields =>
            obtain ⟨collected, hcollected⟩ := ih htarget
              (fun file hfile => h file (.head hextends hfile)) (chain ++ [target])
            exact ⟨collected, by simpa [bind, Except.bind, hchain, htarget] using hcollected⟩

theorem exists_collectBase_of_collectFrom {doc : Document}
    (h : collectFrom w (fuel + 1) path fields chain = .ok collected)
    (hdoc : Document.ofFields fields = .ok doc) (hspec : spec ∈ doc.bases.getD []) :
    ∃ one, collectBase w (collectFrom w fuel) (Path.parent path) chain spec = .ok one := by
  rw [collectFrom, hdoc] at h
  obtain ⟨bases, hbases, -⟩ := bind_ok_iff.mp h
  exact exists_of_collectBases hbases hspec

/-- A base that is new to the chain is read, and collected where it is a configuration. -/
theorem exists_readFile_of_collectBase {target : String}
    {descend : String → Fields → List String → Except Fault Collected}
    (h : collectBase w descend baseDir chain spec = .ok collected)
    (hfound : findBase w spec baseDir = .ok (some target)) (hnew : target ∉ chain) :
    ∃ outcome, readFile w target = .ok outcome ∧
      ∀ fields, outcome = .ok fields →
        descend target fields (chain ++ [target]) = .ok collected := by
  obtain ⟨found, hfound', h⟩ := bind_ok_iff.mp h
  obtain rfl := Except.ok.inj (hfound.symm.trans hfound')
  dsimp only at h
  rw [if_neg (by simpa using hnew)] at h
  obtain ⟨outcome, hread, h⟩ := bind_ok_iff.mp h
  refine ⟨outcome, hread, ?_⟩
  rintro fields rfl
  exact h

/-- **A collection that answers** has looked at every file that it can come to. -/
theorem isSound_of_collectFrom (hway : Way w chain path file)
    (hread : readFile w path = .ok (.ok fields)) (hroom : HasRoom w chain fuel)
    (h : collectFrom w fuel path fields chain = .ok collected) : IsSound w file := by
  -- the collection goes down along the way, which leads to no file of the chain
  induction hway generalizing fuel fields collected with
  | here chain path =>
    obtain ⟨fuel, rfl⟩ := hroom.exists_succ
    obtain ⟨hnull, hnumbers⟩ := exists_readFile_iff.mp ⟨_, hread⟩
    refine ⟨hnull, hnumbers, fun fields' doc hread' hdoc spec hspec => ?_⟩
    obtain rfl := Except.ok.inj (Except.ok.inj (hread.symm.trans hread'))
    obtain ⟨one, hone⟩ := exists_collectBase_of_collectFrom h hdoc hspec
    obtain ⟨found, hfound, -⟩ := bind_ok_iff.mp hone
    exact ⟨found, hfound⟩
  | @step chain path target file hextends hnew hway ih =>
    obtain ⟨fuel, rfl⟩ := hroom.exists_succ
    obtain ⟨hread', hdoc, hspec, hfound⟩ := hextends
    obtain rfl := Except.ok.inj (Except.ok.inj (hread.symm.trans hread'))
    obtain ⟨one, hone⟩ := exists_collectBase_of_collectFrom h hdoc hspec
    obtain ⟨outcome, htarget, hdescend⟩ := exists_readFile_of_collectBase hone hfound hnew
    cases outcome with
    | error failure =>
      -- nothing lies behind a file that is no configuration
      cases hway with
      | here => exact isSound_of_readFile_eq_error htarget
      | step hextends => exact absurd hextends (not_extends_of_readFile_eq_error htarget)
    | ok targetFields =>
      have hfile : IsConfigFile w target := ⟨isNormal_of_findBase hfound, _, htarget⟩
      exact ih htarget (hroom.append hnew hfile) (hdescend _ rfl)

end Collecting

end Config

/-! ### Finishing -/

namespace Inherited

/-- The include specifications in the end. -/
def included (e : Inherited) (dir : String) : List String :=
  (e.incl <|> if e.files.isNone then some [Path.resolve dir "**/*"] else none).getD []

/-- **What can be finished**: where targets of a path mapping are to be resolved, it is not null,
and where the include specifications are valid, the directories to walk are paths. -/
structure IsFinishable (e : Inherited) (dir : String) : Prop where
  mapping : e.options "baseUrl" = none → e.options "paths" ≠ some .null
  roots : ∀ specs : List String, (e.included dir).map FileSpec.expand = specs.map .ok →
    ∀ root ∈ FileSpec.walkRoots specs, '\x00' ∉ root.toList

/-- The directory of a path mapping is known exactly where there is one, which is null or an
object. -/
structure MapsPaths (e : Inherited) : Prop where
  dir : e.mappingDir.isSome ↔ (e.options "paths").isSome
  value : ∀ v, e.options "paths" = some v → v = .null ∨ ∃ members, v = .obj members

theorem mapsPaths_combine {lower upper : Inherited} (hlower : lower.MapsPaths)
    (hupper : upper.MapsPaths) : (lower.combine upper).MapsPaths where
  dir := by
    have hupperDir := hupper.dir
    simp only [combine]
    cases hmapping : upper.mappingDir <;> cases hpaths : upper.options "paths" <;>
      simp [hmapping, hpaths, hlower.dir] at hupperDir ⊢
  value v hv := by
    rcases (Option.orElse_eq_some _ _ _).mp hv with hv | ⟨-, hv⟩
    · exact hupper.value v hv
    · exact hlower.value v hv

theorem mapsPaths_combineAll {values : List Inherited} (h : ∀ e ∈ values, e.MapsPaths) :
    (combineAll values).MapsPaths := by
  induction values with
  | nil => exact ⟨by simp [combineAll], by rintro v ⟨⟩⟩
  | cons e values ih =>
    rw [combineAll_cons]
    exact mapsPaths_combine (h e (by simp)) (ih fun other hother => h other (by simp [hother]))

theorem mapsPaths_own {doc : Document} {dir : String} {options : Fields}
    (hcheck : CompilerOptions.check (doc.compilerOptions.getD []) = .ok options) :
    (own doc dir options).MapsPaths where
  dir := by
    simp only [own, Fields.has, Option.isSome_map]
    split_ifs with hpaths <;> simp [hpaths]
  value v hv := by
    obtain ⟨hpaths, hadmits⟩ := CompilerOptions.get?_paths_of_check hcheck
    obtain ⟨raw, hraw, rfl⟩ := Option.map_eq_some_iff.mp hv
    rw [CompilerOptions.resolveValue_of_not_mem (by decide) (by decide)]
    cases hadmits raw (hpaths.symm.trans hraw) with
    | null => exact .inl rfl
    | mapping targets => exact .inr ⟨_, rfl⟩

end Inherited

/-- **What a file amounts to** maps paths where it says so. -/
theorem Inherits.mapsPaths {w : World} {path : String} {e : Inherited} (h : Inherits w path e) :
    e.MapsPaths := by
  induction h with
  | file bases _ _ hcheck _ _ ih =>
    refine Inherited.mapsPaths_combineAll fun e he => ?_
    rcases List.mem_append.mp he with he | he
    · obtain ⟨base, hbase, rfl⟩ := List.mem_map.mp he
      exact ih base hbase
    · rw [List.mem_singleton.mp he]
      exact Inherited.mapsPaths_own hcheck

theorem Effective.exists_finalOptions_iff {e : Effective} (h : e.inherited.MapsPaths) :
    (∃ options, e.finalOptions = .ok options) ↔
      (e.inherited.options "baseUrl" = none → e.inherited.options "paths" ≠ some .null) := by
  obtain ⟨hdir, hvalue⟩ := h
  dsimp only [Effective.inherited] at hdir hvalue ⊢
  rw [finalOptions, Fields.has]
  cases hpaths : e.options.get? "paths" with
  | none =>
    have hnone : e.mappingDir = none := by simpa [hpaths] using hdir
    simp [hnone]
  | some v =>
    obtain ⟨dir, hsome⟩ : ∃ dir, e.mappingDir = some dir :=
      Option.isSome_iff_exists.mp (hdir.mpr (by rw [hpaths, Option.isSome_some]))
    rw [hsome]
    cases e.options.get? "baseUrl" with
    | some url => simp
    | none =>
      rcases hvalue v hpaths with rfl | ⟨members, rfl⟩ <;> simp

namespace Config

variable {w : World} {path : String} {requireInputs : Bool}

/-- **Finishing answers** with what can be finished. -/
theorem exists_finish_iff {layerCount : Nat} {e : Effective} (h : e.inherited.MapsPaths) :
    (∃ answer, finish w path requireInputs layerCount e = .ok answer) ↔
      e.inherited.IsFinishable (Path.parent path) := by
  have hincluded : (e.include? (Path.parent path)).getD [] =
      e.inherited.included (Path.parent path) := getD_include? e _
  have hmapping := Effective.exists_finalOptions_iff h
  cases hoptions : e.finalOptions with
  | error fault =>
    rw [hoptions] at hmapping
    refine iff_of_false ?_ fun hfinishable => ?_
    · rintro ⟨answer, hanswer⟩
      obtain ⟨options, hok, -⟩ := bind_ok_iff.mp hanswer
      cases hoptions.symm.trans hok
    · obtain ⟨options, hok⟩ := hmapping.mpr hfinishable.mapping
      cases hok
  | ok options =>
    have hfinishable : e.inherited.IsFinishable (Path.parent path) ↔
        ∀ specs : List String, ((e.include? (Path.parent path)).getD []).map FileSpec.expand =
          specs.map .ok → ∀ root ∈ FileSpec.walkRoots specs, '\x00' ∉ root.toList := by
      rw [hincluded]
      exact ⟨fun h => h.roots, fun h => ⟨hmapping.mp ⟨options, hoptions⟩, h⟩⟩
    -- the selection answers unless a directory to walk is no path; all that follows answers
    rw [hfinishable, finish, hoptions]
    simp only [bind, Except.bind]
    generalize hselect : Selection.select w e.files ((e.include? (Path.parent path)).getD [])
      (e.exclude (Path.parent path) options) _ = outcome
    rw [← Selection.select_ne_embeddedNull_iff, hselect]
    cases outcome with
    | error e =>
      cases e with
      | badSpec e => exact iff_of_true ⟨_, rfl⟩ (by rintro ⟨⟩)
      | embeddedNull => exact iff_of_false (by rintro ⟨answer, ⟨⟩⟩) fun h => h rfl
    | ok selection =>
      refine iff_of_true ?_ (by rintro ⟨⟩)
      dsimp only
      split_ifs <;> exact ⟨_, rfl⟩

section Loading

variable {located file : String} {answer : Except LoadError Config} {e : Inherited}

theorem load_of_collect {fields : Fields} {collected : Collected}
    (hlocated : locate w path = .ok located) (hread : readFile w located = .ok (.ok fields))
    (hcollected : collect w located fields = .ok collected) :
    load w path requireInputs =
      if collected.problems.isEmpty then
        finish w located requireInputs collected.layers.length
          (Effective.ofLayers collected.layers)
      else .ok (.error (.invalid located (.problems collected.problems))) := by
  rw [load]
  simp only [hlocated, hread, hcollected, bind, Except.bind]
  rfl

/-- A configuration that is loaded is read, and collected where it can be. -/
theorem exists_readFile_of_load (hlocated : locate w path = .ok located)
    (h : load w path requireInputs = .ok answer) :
    ∃ outcome, readFile w located = .ok outcome ∧
      ∀ fields, outcome = .ok fields → ∃ collected, collect w located fields = .ok collected := by
  obtain ⟨located', hlocated', h⟩ := bind_ok_iff.mp h
  obtain rfl := Except.ok.inj (hlocated.symm.trans hlocated')
  obtain ⟨outcome, hread, h⟩ := bind_ok_iff.mp h
  refine ⟨outcome, hread, ?_⟩
  rintro fields rfl
  obtain ⟨collected, hcollected, -⟩ := bind_ok_iff.mp h
  exact ⟨collected, hcollected⟩

/-- **What loading has looked at** when it answers. -/
theorem isSound_of_load (hlocated : locate w path = .ok located)
    (h : load w path requireInputs = .ok answer)
    (hreached : ReflTransGen (Extends w) located file) : IsSound w file := by
  obtain ⟨outcome, hread, hcollect⟩ := exists_readFile_of_load hlocated h
  cases outcome with
  | error failure =>
    rcases hreached.cases_head with rfl | ⟨target, hextends, -⟩
    · exact isSound_of_readFile_eq_error hread
    · exact absurd hextends (not_extends_of_readFile_eq_error hread)
  | ok fields =>
    obtain ⟨collected, hcollected⟩ := hcollect fields rfl
    have hfile : IsConfigFile w located := ⟨isNormal_of_locate hlocated, fields, hread⟩
    exact isSound_of_collectFrom (way_of_reached hreached) hread (hasRoom_singleton hfile)
      hcollected

/-- **What loading has finished** when it answers. -/
theorem isFinishable_of_load (hlocated : locate w path = .ok located)
    (h : load w path requireInputs = .ok answer) (he : Inherits w located e) :
    e.IsFinishable (Path.parent located) := by
  obtain ⟨fields, hread⟩ := exists_fields_of_inherits he
  obtain ⟨outcome, hread', hcollect⟩ := exists_readFile_of_load hlocated h
  obtain rfl := Except.ok.inj (hread.symm.trans hread')
  obtain ⟨collected, hcollected⟩ := hcollect fields rfl
  have hproblems : collected.problems = [] := problems_of_inherits he hread
    (fun file hmem => by rw [List.mem_singleton.mp hmem]) hcollected
  have hinherits := inherits_of_collect hlocated hread hcollected hproblems
  rw [load_of_collect hlocated hread hcollected, if_pos (List.isEmpty_iff.mpr hproblems)] at h
  rw [he.unique hinherits]
  exact (exists_finish_iff hinherits.mapsPaths).mp ⟨answer, h⟩

theorem exists_load (hlocated : locate w path = .ok located)
    (hsound : ∀ file, ReflTransGen (Extends w) located file → IsSound w file)
    (hfinishable : ∀ e, Inherits w located e → e.IsFinishable (Path.parent located)) :
    ∃ answer, load w path requireInputs = .ok answer := by
  obtain ⟨outcome, hread⟩ := (hsound located .refl).exists_readFile
  cases outcome with
  | error failure =>
    have hload : load w path requireInputs = .ok (.error (.unreadable failure)) := by
      rw [load]
      simp only [hlocated, hread, bind, Except.bind]
      rfl
    exact ⟨_, hload⟩
  | ok fields =>
    obtain ⟨collected, hcollected⟩ := exists_collectFrom (maxChain w) hread hsound [located]
    rw [load_of_collect hlocated hread hcollected]
    split_ifs with hproblems
    · have hinherits :=
        inherits_of_collect hlocated hread hcollected (List.isEmpty_iff.mp hproblems)
      exact (exists_finish_iff hinherits.mapsPaths).mpr (hfinishable _ hinherits)
    · exact ⟨_, rfl⟩

end Loading

/-- **Loading answers** exactly when the configuration can be located, all files that it leads to
can be looked at, and what it amounts to, where it amounts to anything, can be finished. -/
theorem load_answers_iff :
    (∃ answer, load w path requireInputs = .ok answer) ↔
      ∃ located, locate w path = .ok located ∧
        (∀ file, ReflTransGen (Extends w) located file → IsSound w file) ∧
        ∀ e, Inherits w located e → e.IsFinishable (Path.parent located) := by
  constructor
  · rintro ⟨answer, h⟩
    obtain ⟨located, hlocated, -⟩ := bind_ok_iff.mp h
    exact ⟨located, hlocated, fun file hreached => isSound_of_load hlocated h hreached,
      fun e he => isFinishable_of_load hlocated h he⟩
  · rintro ⟨located, hlocated, hsound, hfinishable⟩
    exact exists_load hlocated hsound hfinishable

/-- A configuration with a null path mapping, which is valid: every option may be null. -/
def nullMapping : World :=
  { nodes := [(["tsconfig.json"], plainFile
      "\x7b\"compilerOptions\": \x7b\"paths\": null\x7d\x7d")] }

/-- The targets of a null mapping are resolved all the same, so loading does not always answer. -/
theorem not_forall_load_answers :
    ¬ ∀ (w : World) (path : String) (requireInputs : Bool), '\x00' ∉ path.toList →
      path.toList.head? ≠ some '~' → ∃ answer, load w path requireInputs = .ok answer := by
  intro h
  obtain ⟨answer, hanswer⟩ := h nullMapping "/tsconfig.json" false (by decide) (by decide)
  have hfault : (load nullMapping "/tsconfig.json" false).toOption = none := by decide +kernel
  rw [hanswer] at hfault
  cases hfault

end Config

end TsProject

import TsProject.Proofs.Engine.Validity
import TsProject.Proofs.Pipeline.Resolve

/-!
# What engines are handed

A unit is handed to the engine when the end of an invocation depends on what the engine does about
this unit (`Hands`), which says nothing about the way an invocation takes. An invocation without a
unit ends the same with any engine, and one with a unit asks about that unit only
(`resolve_cases`), so that the units that are handed over are those made ready from the request and
the world (`hands_iff`). The project document of such a unit holds valid options:
`areValid_of_hands`.
-/

namespace TsProject.Action

variable {input : CompileRequest.Input} {keywords : Fields} {s : Session}

/-- **A unit is handed to the engine** when the end of the invocation depends on what is done about
it: there are two engines of one name that do the same about every other unit, and with them the
invocation ends differently. -/
def Hands (input : CompileRequest.Input) (keywords : Fields) (s : Session)
    (u : CompilationUnit) : Prop :=
  ∃ engine other : Engine, other.name = engine.name ∧
    (∀ v, v ≠ u → other.emit v = engine.emit v) ∧
    resolve other input keywords s ≠ resolve engine input keywords s

/-! ### Invocations without a unit -/

/-- **What an invocation comes to**: it fails early, or has a unit ready, or ends in a fault that
no engine has any part in. -/
theorem resolve_cases (input : CompileRequest.Input) (keywords : Fields) (s : Session) :
    (∃ failure, FailsEarly s.world input keywords failure) ∨
    (∃ c u, Readies s.world input keywords c u) ∨
    ∃ fault s', ∀ engine, resolve engine input keywords s = (.error fault, s') := by
  cases hrequest : CompileRequest.coerce input keywords with
  | error problems => exact .inl ⟨_, .request hrequest⟩
  | ok request =>
    rcases exists_load_or_fault hrequest with ⟨located, loaded, hlocated, hload⟩ | hfault
    · cases loaded with
      | error e => exact .inl ⟨_, .load hrequest hlocated hload⟩
      | ok c =>
        cases hmerge : CompilerOptions.merge c.options request.overrides request.outputLocation
          (some c.baseDir) with
        | error e => exact .inl ⟨_, .merge hrequest hlocated hload hmerge⟩
        | ok options => exact .inr (.inl ⟨c, _, .unit hrequest hlocated hload hmerge⟩)
    · exact .inr (.inr hfault)

/-! ### The unit that is handed over -/

/-- **An engine for one unit**: it answers where it is asked about that unit, and fails where it
is asked about another. -/
noncomputable def engineFor (u : CompilationUnit) : Engine where
  name := ""
  emit v := open Classical in if v = u then return {} else throw .unitReused

/-- An engine that fails. -/
def failing : Engine where
  name := ""
  emit _ := throw .unitReused

/-- **The units that are handed over** are those made ready. -/
theorem hands_iff {u : CompilationUnit} :
    Hands input keywords s u ↔ ∃ c, Readies s.world input keywords c u := by
  constructor
  · rintro ⟨engine, other, hname, hsame, hdiffer⟩
    rcases resolve_cases input keywords s with
      ⟨failure, hfails⟩ | ⟨c, v, hready⟩ | ⟨fault, s', hrun⟩
    · obtain ⟨s', -, -, -, -, hrun⟩ := exists_endsEarly hfails
      exact absurd ((hrun other).trans (hrun engine).symm) hdiffer
    · obtain ⟨located, before, -, hresolve⟩ := exists_resolve_of_readies hready engine.name
      by_cases hunit : v = u
      · exact ⟨c, hunit ▸ hready⟩
      · rw [hresolve other hname, hresolve engine rfl, hsame v hunit] at hdiffer
        exact absurd rfl hdiffer
    · exact absurd ((hrun other).trans (hrun engine).symm) hdiffer
  · rintro ⟨c, hready⟩
    obtain ⟨located, before, -, hresolve⟩ := exists_resolve_of_readies hready ""
    have hanswers : (engineFor u).emit u before = (.ok {}, before) := by
      simp only [engineFor, if_true]
      rfl
    have hfails : failing.emit u before = (.error .unitReused, before) := rfl
    have hothers : ∀ v, v ≠ u → (engineFor u).emit v = failing.emit v := by
      intro v hv
      simp [engineFor, failing, hv]
    obtain ⟨answer, s', hconclude, -⟩ := exists_conclude before located {}
    refine ⟨failing, engineFor u, rfl, hothers, ?_⟩
    rw [hresolve (engineFor u) rfl, hresolve failing rfl, Run.bind_of_ok hanswers, hconclude,
      Run.bind_of_error hfails]
    intro hsame
    cases (Prod.mk.inj hsame).1

/-- A unit made ready has the merged options of a loaded configuration. -/
theorem Readies.exists_merge {w : World} {c : Config} {u : CompilationUnit}
    (h : Readies w input keywords c u) : ∃ (request : CompileRequest) (located : String),
      Config.load w located request.inputFiles.isNone = .ok (.ok c) ∧
      CompilerOptions.merge c.options request.overrides request.outputLocation
        (some c.baseDir) = .ok u.options ∧
      u.configPath = c.path ∧ u.cwd = w.cwdText := by
  obtain @⟨request, located, c, options, hrequest, hlocated, hload, hmerge⟩ := h
  exact ⟨request, located, hload, hmerge, rfl, rfl⟩

/-- **Only valid options reach the compiler.** The project document of every unit that is handed
to the engine, whatever the request and the world, can be made and holds valid options. -/
theorem areValid_of_hands {u : CompilationUnit} (h : Hands input keywords s u)
    (processCwd : String) : u.oddOption? = none ∧ ∃ options files,
      u.projectDocument processCwd = .obj [("compilerOptions", .obj options),
        ("files", .arr files), ("include", .arr [])] ∧
      CompilerOptions.AreValid options := by
  obtain ⟨c, hready⟩ := hands_iff.mp h
  obtain ⟨request, located, hload, hmerge, hpath, hcwd⟩ := hready.exists_merge
  have habsolute : Path.isAbsolute u.cwd := hcwd ▸ s.world.isAbsolute_cwdText
  obtain ⟨hodd, hvalid⟩ :=
    Config.areValid_projectOptions hload hmerge hpath habsolute processCwd
  exact ⟨hodd, u.projectOptions processCwd, _, rfl, hvalid⟩

/-- A request for the configuration that keeps incremental state, with an override and an output
location. -/
def statefulRequest : CompileRequest.Input := .fields
  [("config_path", .str "/tsconfig.json"), ("output_location", .str "out"),
    ("option_overrides", .obj [("target", .str "ES2020")])]

/-- An engine that reports nothing. -/
def silent : Engine where
  name := "silent"
  emit _ := return {}

/-- The unit of the request is handed over, and its options are valid. -/
theorem areValid_statefulRequest : ∃ u,
    Hands statefulRequest noFiles { world := Config.statefulProject } u ∧
      u.oddOption? = none ∧ ∃ options files,
        u.projectDocument "/v" = .obj [("compilerOptions", .obj options), ("files", .arr files),
          ("include", .arr [])] ∧
        CompilerOptions.AreValid options := by
  have hanswers : (resolve silent statefulRequest noFiles
      { world := Config.statefulProject }).1.toOption.any (·.toOption.isSome) := by
    decide +kernel
  rcases resolve_cases statefulRequest noFiles { world := Config.statefulProject } with
    ⟨failure, hfails⟩ | ⟨c, u, hready⟩ | ⟨fault, s', hrun⟩
  · obtain ⟨s', -, -, -, -, hrun⟩ := exists_endsEarly hfails
    rw [hrun silent] at hanswers
    cases hanswers
  · have hhands := hands_iff.mpr ⟨c, hready⟩
    exact ⟨u, hhands, areValid_of_hands hhands "/v"⟩
  · rw [hrun silent] at hanswers
    cases hanswers

end TsProject.Action

import TsProject.Pipeline.Action
import TsProject.Proofs.Run

/-!
# How an invocation ends

An invocation that answers either ends early, with a request, a configuration or overrides that
are refused (`FailsEarly`), or it has a unit ready for the engine (`Readies`). `EndsEarly` and
`AsksEngine` say what the host is told in each case and what the answer is. In the first case the
engine plays no part, and in the second nothing of it counts but what it does when it is asked
about this unit in one session: `resolve_spec`.
-/

namespace TsProject.Action

open Run (Says)

/-! ### What decides how it ends -/

/-- **A failure before the engine is asked**: of the request, of loading or of merging. -/
inductive FailsEarly (w : World) (input : CompileRequest.Input) (keywords : Fields) :
    Failure → Prop
  | request {problems : List FieldProblem} :
    CompileRequest.coerce input keywords = .error problems →
      FailsEarly w input keywords (CompileRequest.failureOf problems)
  | load {request : CompileRequest} {located : String} {e : LoadError} :
    CompileRequest.coerce input keywords = .ok request →
    Config.locate w request.configPath = .ok located →
    Config.load w located request.inputFiles.isNone = .ok (.error e) →
      FailsEarly w input keywords (.ofLoadError e)
  | merge {request : CompileRequest} {located : String} {c : Config} {e : OverrideError} :
    CompileRequest.coerce input keywords = .ok request →
    Config.locate w request.configPath = .ok located →
    Config.load w located request.inputFiles.isNone = .ok (.ok c) →
    CompilerOptions.merge c.options request.overrides request.outputLocation (some c.baseDir) =
      .error e →
      FailsEarly w input keywords (.ofOverrideError e)

/-- **A unit ready for the engine**: claimed, with the merged options, and with the files of the
request where it names any, even none, and those of the configuration otherwise. -/
inductive Readies (w : World) (input : CompileRequest.Input) (keywords : Fields) :
    Config → CompilationUnit → Prop
  | unit {request : CompileRequest} {located : String} {c : Config} {options : Fields} :
    CompileRequest.coerce input keywords = .ok request →
    Config.locate w request.configPath = .ok located →
    Config.load w located request.inputFiles.isNone = .ok (.ok c) →
    CompilerOptions.merge c.options request.overrides request.outputLocation (some c.baseDir) =
      .ok options →
      Readies w input keywords c {
        inputFiles := request.inputFiles.getD c.selection.files
        options, baseDir := c.baseDir, configPath := c.path, cwd := w.cwdText, consumed := true }

/-- What has a unit ready does not fail early. -/
theorem Readies.not_failsEarly {w : World} {input : CompileRequest.Input} {keywords : Fields}
    {c : Config} {u : CompilationUnit} (h : Readies w input keywords c u) (failure : Failure) :
    ¬FailsEarly w input keywords failure := by
  obtain ⟨hrequest, hlocated, hload, hmerge⟩ := h
  rintro (hrequest' | ⟨hrequest', hlocated', hload'⟩ | ⟨hrequest', hlocated', hload', hmerge'⟩)
  · cases hrequest.symm.trans hrequest'
  · obtain rfl := Except.ok.inj (hrequest.symm.trans hrequest')
    obtain rfl := Except.ok.inj (hlocated.symm.trans hlocated')
    cases hload.symm.trans hload'
  · obtain rfl := Except.ok.inj (hrequest.symm.trans hrequest')
    obtain rfl := Except.ok.inj (hlocated.symm.trans hlocated')
    obtain rfl := Except.ok.inj (Except.ok.inj (hload.symm.trans hload'))
    cases hmerge.symm.trans hmerge'

/-! ### How it ends -/

variable {engine : Engine} {input : CompileRequest.Input} {keywords : Fields} {s s' : Session}
  {answer : Except Failure Unit}

/-- **Ending early**: the failure is the answer and the only message, an error, and no engine has
any part in it. -/
def EndsEarly (input : CompileRequest.Input) (keywords : Fields) (s : Session)
    (answer : Except Failure Unit) (s' : Session) : Prop :=
  ∃ failure, FailsEarly s.world input keywords failure ∧ answer = .error failure ∧
    s.Tells s' [(true, failure.format)] ∧
    ∀ engine, resolve engine input keywords s = (.ok answer, s')

/-- **What is made of an engine's result**: without diagnostics success, which is told, and
otherwise a failure with an entry for each, those before emission first, which are told as errors
and make up its message. -/
structure Concludes (result : EmitResult) (answer : Except Failure Unit) (after s' : Session) :
    Prop where
  success : result.pre = [] ∧ result.emit = [] → answer = .ok () ∧
    after.Tells s' [(false, "TypeScript compilation completed successfully.")]
  failure : ¬(result.pre = [] ∧ result.emit = []) → ∃ entries,
    entries = result.pre.map (Entry.ofDiagnostic .preEmit) ++
      result.emit.map (Entry.ofDiagnostic .emit) ∧
    answer = .error (.compilationDiagnostics entries) ∧
    after.Tells s' (entries.map fun entry => (true, entry.format)) ∧
    (Failure.compilationDiagnostics entries).message =
      "\n\n".intercalate (entries.map Entry.format)

/-- **Asking the engine** once: the host is told of the configuration, the engine is asked about
the unit and gives a result, and from there on nothing is done but to tell the host of it, so that
an engine that leaves a mark whenever it is asked has left one. Any other engine that does the
same when it is asked this, whatever else it does, leads to the same end. -/
def AsksEngine (engine : Engine) (input : CompileRequest.Input) (keywords : Fields) (s : Session)
    (answer : Except Failure Unit) (s' : Session) : Prop :=
  ∃ c u before result after, Readies s.world input keywords c u ∧
    s.Tells before [(false, "Compiling TypeScript using configuration: " ++ c.path)] ∧
    engine.emit u before = (.ok result, after) ∧ Concludes result answer after s' ∧
    ∀ other : Engine, other.name = engine.name → other.emit u before = engine.emit u before →
      resolve other input keywords s = (.ok answer, s')

/-! ### Steps that tell nothing -/

theorem says_logAbout (s : Session) (path event : String) (fields : Fields) :
    Says s (logAbout path event fields) [] () := Run.says_log s _ _ _

theorem says_setResults (s : Session) (r : SpanResults) : Says s (Run.setResults r) [] () :=
  Run.says_setAttributes s _

theorem says_logSelection (s : Session) (selection : Selection) :
    Says s (logLoad.logSelection selection) [] () := Run.says_log s _ _ _

theorem says_logLoad (s : Session) (path : String) (loaded : Except LoadError Config) :
    Says s (logLoad path loaded) [] () := by
  cases loaded with
  | ok config => exact (says_logSelection s _).bind fun s' => says_logAbout s' _ _ _
  | error e =>
    cases e with
    | unreadable failure => exact says_logAbout s _ _ _
    | invalid file cause =>
      cases cause with
      | problems found => exact says_logAbout s _ _ _
      | badSpec e => exact says_logAbout s _ _ _
      | emptyFiles => exact (says_logSelection s _).bind fun s' => says_logAbout s' _ _ _
      | noInputs incl excl => exact (says_logSelection s _).bind fun s' => says_logAbout s' _ _ _

/-- **Loading** tells nothing. -/
theorem says_loadConfig {path : String} {requireInputs : Bool} {loaded : Except LoadError Config}
    (h : Config.load s.world path requireInputs = .ok loaded) :
    Says s (loadConfig path requireInputs) [] loaded := by
  rw [loadConfig]
  refine Says.world_bind ?_
  rw [h]
  refine (Says.pure s loaded).bind fun s' => ?_
  exact (says_logLoad s' _ loaded).bind fun s' => .pure s' loaded

/-- **Merging** tells nothing. -/
theorem says_mergeOptions (s : Session) (c : Config) (request : CompileRequest) :
    Says s (mergeOptions c request) [] (CompilerOptions.merge c.options request.overrides
      request.outputLocation (some c.baseDir)) := by
  rw [mergeOptions]
  dsimp only
  cases CompilerOptions.merge c.options request.overrides request.outputLocation
    (some c.baseDir) with
  | ok options => exact (Run.says_log s _ _ _).bind fun s' => .pure s' _
  | error e => exact (Run.says_log s _ _ _).bind fun s' => .pure s' _

theorem says_stageFailed (s : Session) (path : String) (failure : Failure) :
    Says s (stageFailed path failure) [(true, failure.format)] (.error failure) :=
  (says_setResults s _).bind fun s' => (says_logAbout s' _ _ _).bind fun s' =>
    (Run.says_logError s' _).bind fun s' => .pure s' _

/-! ### The way to the engine -/

section Way

variable {request : CompileRequest} {located : String} {c : Config} {options : Fields}

/-- A request whose configuration is found goes on within a span. -/
theorem exists_opened (hlocated : Config.locate s.world request.configPath = .ok located) :
    ∃ opened, s.Tells opened [] ∧ ∀ engine, runRequest engine request s =
      Run.endSpan ((loadConfig located request.inputFiles.isNone >>= fun loaded =>
        match loaded with
        | .error e => stageFailed located (.ofLoadError e)
        | .ok c => runLoaded engine located request c) opened) := by
  have hlocate : Run.ofExcept (Config.locate s.world request.configPath) s = (.ok located, s) := by
    rw [hlocated]
    rfl
  refine ⟨Run.openSpan "kist.typescript.pipeline"
    [("kist.typescript.config_path", .value (.str located))] s, Run.tells_openSpan _ _ s,
    fun engine => ?_⟩
  rw [runRequest, Run.bind_of_ok (x := Run.world) rfl, Run.bind_of_ok hlocate, Run.pipelineSpan]
  exact Run.withSpan_eq _ _ _ s

/-- A request that has been read leads to its configuration or to the failure of loading it,
within a span. -/
theorem exists_runRequest {loaded : Except LoadError Config}
    (hlocated : Config.locate s.world request.configPath = .ok located)
    (hload : Config.load s.world located request.inputFiles.isNone = .ok loaded) :
    ∃ s₁, s.Tells s₁ [] ∧ ∀ engine, runRequest engine request s = Run.endSpan
      ((match loaded with
        | .error e => stageFailed located (.ofLoadError e)
        | .ok c => runLoaded engine located request c) s₁) := by
  obtain ⟨opened, hopened, hopen⟩ := exists_opened hlocated
  rw [← hopened.world] at hload
  obtain ⟨s₁, hrun, htells⟩ := says_loadConfig hload
  refine ⟨s₁, hopened.trans htells, fun engine => ?_⟩
  rw [hopen, Run.bind_of_ok hrun]

/-- Overrides that are refused lead to their failure. -/
theorem exists_runLoaded_of_error {e : OverrideError} (s : Session) (located : String)
    (hmerge : CompilerOptions.merge c.options request.overrides request.outputLocation
      (some c.baseDir) = .error e) :
    ∃ s₁, s.Tells s₁ [] ∧ ∀ engine, runLoaded engine located request c s =
      stageFailed located (.ofOverrideError e) s₁ := by
  have hmerged := fun s => says_mergeOptions s c request
  rw [hmerge] at hmerged
  obtain ⟨s₁, hreached, htells₁⟩ : Says s (reached located .loaded) [] () := says_logAbout s _ _ _
  obtain ⟨s₂, hrun, htells₂⟩ := hmerged s₁
  refine ⟨s₂, htells₁.trans htells₂, fun engine => ?_⟩
  rw [runLoaded, Run.bind_of_ok hreached, Run.bind_of_ok hrun]

/-- **Merged options lead to the engine**, when the host has been told. -/
theorem exists_runLoaded_of_ok (s : Session) (located name : String)
    (hmerge : CompilerOptions.merge c.options request.overrides request.outputLocation
      (some c.baseDir) = .ok options) :
    ∃ before, s.Tells before
        [(false, "Compiling TypeScript using configuration: " ++ c.path)] ∧
      ∀ engine : Engine, engine.name = name → runLoaded engine located request c s =
        (engine.emit {
          inputFiles := request.inputFiles.getD c.selection.files
          options, baseDir := c.baseDir, configPath := c.path, cwd := s.world.cwdText
          consumed := true } >>= fun result => do
            reached located .compiled
            conclude located result) before := by
  have hmerged := fun s => says_mergeOptions s c request
  rw [hmerge] at hmerged
  let files := selectInputs c.inputFiles request.inputFiles
  let u : CompilationUnit := {
    inputFiles := files, options, baseDir := c.baseDir, configPath := c.path
    cwd := s.world.cwdText, consumed := true }
  obtain ⟨s₁, hloaded, htells₁⟩ : Says s (reached located .loaded) [] () := says_logAbout s _ _ _
  obtain ⟨s₂, hrun, htells₂⟩ := hmerged s₁
  obtain ⟨s₃, hreached, htells₃⟩ : Says s₂ (reached located .merged) [] () :=
    says_logAbout s₂ _ _ _
  obtain ⟨s₄, hresults, htells₄⟩ := says_setResults s₃ { inputFiles := some files.length }
  obtain ⟨s₅, hinfo, htells₅⟩ := Run.says_logInfo s₄
    ("Compiling TypeScript using configuration: " ++ c.path)
  obtain ⟨before, hlog, htells₆⟩ := Run.says_log s₅ .debug "compilation_unit_created"
    [("engine", .str name), ("input_file_count", .int u.inputFiles.length),
      ("option_count", .int u.options.length)]
  have htells := ((((htells₁.trans htells₂).trans htells₃).trans htells₄).trans htells₅)
  refine ⟨before, htells.trans htells₆, ?_⟩
  rintro engine rfl
  have hcompile : compile engine c options files s₅ = engine.emit u before := by
    have hclaim : Run.ofExcept (CompilationUnit.make files options c.baseDir (some c.path)
        s₅.world.cwdText).claim s₅ = (.ok u, s₅) := by
      rw [htells.world]
      rfl
    rw [compile, Run.bind_of_ok (x := Run.world) rfl, Run.bind_of_ok hclaim, Run.bind_of_ok hlog]
  rw [runLoaded, Run.bind_of_ok hloaded, Run.bind_of_ok hrun]
  dsimp only
  rw [Run.bind_of_ok hreached, Run.bind_of_ok hresults, Run.bind_of_ok hinfo]
  exact Run.bind_congr_left hcompile _

end Way

/-! ### What comes after the engine -/

/-- **Success** is told and answered without diagnostics. -/
theorem says_conclude_success (s : Session) (path : String) {result : EmitResult}
    (h : result.pre = [] ∧ result.emit = []) :
    Says s (conclude path result) [(false, "TypeScript compilation completed successfully.")]
      (.ok ()) := by
  have hcollect : Outcome.collect result.pre result.emit = .success := by
    rw [h.1, h.2]
    rfl
  rw [conclude]
  refine (says_setResults s _).bind fun s => ?_
  rw [hcollect]
  refine (says_setResults s _).bind fun s => ?_
  refine (says_logAbout s _ _ _).bind fun s => ?_
  exact (Run.says_logInfo s _).bind fun s => .pure s _

/-- **Every diagnostic** is told and answered. -/
theorem says_conclude_failure (s : Session) (path : String) {result : EmitResult}
    (h : ¬(result.pre = [] ∧ result.emit = [])) {entries : List Entry}
    (hentries : entries = result.pre.map (Entry.ofDiagnostic .preEmit) ++
      result.emit.map (Entry.ofDiagnostic .emit)) :
    Says s (conclude path result) (entries.map fun entry => (true, entry.format))
      (.error (.compilationDiagnostics entries)) := by
  have htold : ∀ s (entry : Entry), Says s (Run.logError entry.format) [(true, entry.format)] () :=
    fun s entry => Run.says_logError s _
  rw [conclude, ← List.append_nil (entries.map _)]
  refine (says_setResults s _).bind fun s => ?_
  rw [Outcome.collect_eq_failure h, entriesOf, ← hentries]
  refine (Run.says_forM htold s entries).bind fun s => ?_
  refine (says_setResults s _).bind fun s => ?_
  exact (says_logAbout s _ _ _).bind fun s => .pure s _

/-- **Concluding** a result, whatever the session, up to the end of the span. -/
theorem exists_conclude (s : Session) (path : String) (result : EmitResult) :
    ∃ answer s', Run.endSpan ((do reached path .compiled; conclude path result : Run _) s) =
      (.ok answer, s') ∧ Concludes result answer s s' := by
  have hreached : Says s (reached path .compiled) [] () := says_logAbout s _ _ _
  by_cases hnone : result.pre = [] ∧ result.emit = []
  · obtain ⟨s', hrun, htells⟩ :=
      (hreached.bind (f := fun _ => conclude path result) fun s =>
        says_conclude_success s path hnone).endSpan
    exact ⟨_, s', hrun, fun _ => ⟨rfl, htells⟩, fun h => absurd hnone h⟩
  · obtain ⟨s', hrun, htells⟩ :=
      (hreached.bind (f := fun _ => conclude path result) fun s =>
        says_conclude_failure s path hnone rfl).endSpan
    exact ⟨_, s', hrun, fun h => absurd h hnone, fun _ => ⟨_, rfl, rfl, htells, rfl⟩⟩

/-! ### All invocations -/

theorem resolve_of_ok {request : CompileRequest}
    (h : CompileRequest.coerce input keywords = .ok request) (engine : Engine) :
    resolve engine input keywords s = runRequest engine request s := by
  rw [resolve, h]

/-- **What fails early ends early.** -/
theorem exists_endsEarly {failure : Failure} (h : FailsEarly s.world input keywords failure) :
    ∃ s', EndsEarly input keywords s (.error failure) s' := by
  have hstage : ∀ (s₁ : Session) (located : String), s.Tells s₁ [] →
      (∀ engine, resolve engine input keywords s =
        Run.endSpan (stageFailed located failure s₁)) →
      ∃ s', EndsEarly input keywords s (.error failure) s' := by
    intro s₁ located htells hresolve
    obtain ⟨s', hrun, htells'⟩ := (says_stageFailed s₁ located failure).endSpan
    exact ⟨s', failure, h, rfl, htells.trans htells', fun engine => (hresolve engine).trans hrun⟩
  cases h with
  | @request problems hrequest =>
    obtain ⟨s₁, hlog, htells₁⟩ := Run.says_log s .debug "typescript_request_invalid"
      [("error_kind", .str (CompileRequest.failureOf problems).kind.text),
        ("error_count", .int problems.length)]
    obtain ⟨s₂, herror, htells₂⟩ := Run.says_logError s₁ (CompileRequest.failureOf problems).format
    refine ⟨s₂, _, .request hrequest, rfl, htells₁.trans htells₂, fun engine => ?_⟩
    rw [resolve, hrequest]
    dsimp only
    rw [Run.bind_of_ok hlog, Run.bind_of_ok herror]
    rfl
  | load hrequest hlocated hload =>
    obtain ⟨s₁, htells, hrun⟩ := exists_runRequest hlocated hload
    exact hstage s₁ _ htells fun engine => (resolve_of_ok hrequest engine).trans (hrun engine)
  | @merge request located c e hrequest hlocated hload hmerge =>
    obtain ⟨s₁, htells₁, hrun⟩ := exists_runRequest hlocated hload
    obtain ⟨s₂, htells₂, hloaded⟩ := exists_runLoaded_of_error s₁ located hmerge
    refine hstage s₂ located (htells₁.trans htells₂) fun engine => ?_
    rw [resolve_of_ok hrequest, hrun]
    dsimp only
    rw [hloaded]

/-- **A fault** of finding or loading the configuration ends the invocation, whatever the engine. -/
theorem exists_load_or_fault {request : CompileRequest}
    (hrequest : CompileRequest.coerce input keywords = .ok request) :
    (∃ located loaded, Config.locate s.world request.configPath = .ok located ∧
      Config.load s.world located request.inputFiles.isNone = .ok loaded) ∨
    ∃ fault s', ∀ engine, resolve engine input keywords s = (.error fault, s') := by
  cases hlocated : Config.locate s.world request.configPath with
  | error fault =>
    have hlocate :
        Run.ofExcept (Config.locate s.world request.configPath) s = (.error fault, s) := by
      rw [hlocated]
      rfl
    refine .inr ⟨fault, s, fun engine => ?_⟩
    rw [resolve_of_ok hrequest, runRequest, Run.bind_of_ok (x := Run.world) rfl,
      Run.bind_of_error hlocate]
  | ok located =>
    cases hload : Config.load s.world located request.inputFiles.isNone with
    | ok loaded => exact .inl ⟨located, loaded, rfl, hload⟩
    | error fault =>
      obtain ⟨opened, hopened, hopen⟩ := exists_opened hlocated
      have hfails : loadConfig located request.inputFiles.isNone opened =
          (.error fault, opened) := by
        rw [loadConfig, Run.bind_of_ok (x := Run.world) rfl, hopened.world, hload]
        rfl
      refine .inr ⟨fault, Run.closeSpan (.fault fault) opened, fun engine => ?_⟩
      rw [resolve_of_ok hrequest, hopen, Run.bind_of_error hfails]
      rfl

/-- An invocation that answers has found and loaded the configuration of its request, or not. -/
theorem exists_load_of_resolve {request : CompileRequest}
    (hrequest : CompileRequest.coerce input keywords = .ok request)
    (h : resolve engine input keywords s = (.ok answer, s')) :
    ∃ located loaded, Config.locate s.world request.configPath = .ok located ∧
      Config.load s.world located request.inputFiles.isNone = .ok loaded := by
  rcases exists_load_or_fault hrequest with hload | ⟨fault, after, hrun⟩
  · exact hload
  · cases (Prod.mk.inj ((hrun engine).symm.trans h)).1

/-- **The way to the engine** is the same for all engines of a name: the host has been told of the
configuration when the engine is asked, and what comes after that goes by its answer. -/
theorem exists_resolve_of_readies {c : Config} {u : CompilationUnit}
    (hready : Readies s.world input keywords c u) (name : String) : ∃ located before,
      s.Tells before [(false, "Compiling TypeScript using configuration: " ++ c.path)] ∧
      ∀ engine : Engine, engine.name = name → resolve engine input keywords s =
        Run.endSpan ((engine.emit u >>= fun result => do
          reached located .compiled
          conclude located result) before) := by
  obtain @⟨request, located, c, options, hrequest, hlocated, hload, hmerge⟩ := hready
  obtain ⟨s₁, htells₁, hrun⟩ := exists_runRequest hlocated hload
  obtain ⟨before, htells₂, hloaded⟩ := exists_runLoaded_of_ok s₁ located name hmerge
  rw [htells₁.world] at hloaded
  refine ⟨located, before, htells₁.trans htells₂, fun engine hname => ?_⟩
  exact ((resolve_of_ok hrequest engine).trans (hrun engine)).trans
    (congrArg Run.endSpan (hloaded engine hname))

/-- **What has a unit ready asks the engine.** -/
theorem asksEngine_of_readies {c : Config} {u : CompilationUnit}
    (hready : Readies s.world input keywords c u)
    (h : resolve engine input keywords s = (.ok answer, s')) :
    AsksEngine engine input keywords s answer s' := by
  obtain ⟨located, before, htells, hresolve⟩ := exists_resolve_of_readies hready engine.name
  have hend := (hresolve engine rfl).symm.trans h
  obtain ⟨s₃, hbody⟩ := Run.exists_of_endSpan_eq_ok hend
  obtain ⟨result, after, hemit, -⟩ := Run.exists_of_bind_eq_ok hbody
  refine ⟨c, u, before, result, after, hready, htells, hemit, ?_, ?_⟩
  · obtain ⟨answer', s'', hconclude, hconcludes⟩ := exists_conclude after located result
    rw [Run.bind_of_ok hemit] at hend
    obtain ⟨hanswer, rfl⟩ := Prod.mk.inj (hconclude.symm.trans hend)
    obtain rfl := Except.ok.inj hanswer
    exact hconcludes
  · intro other hname hsame
    rw [hresolve other hname, Run.bind_congr_left hsame, ← hresolve engine rfl, h]

/-- **How an invocation ends.** Every one that answers either ends early or asks the engine, and
not both. -/
theorem resolve_spec (h : resolve engine input keywords s = (.ok answer, s')) :
    (EndsEarly input keywords s answer s' ∨ AsksEngine engine input keywords s answer s') ∧
      ¬(EndsEarly input keywords s answer s' ∧
        AsksEngine engine input keywords s answer s') := by
  have hearly : ∀ failure, FailsEarly s.world input keywords failure →
      EndsEarly input keywords s answer s' := by
    intro failure hfails
    obtain ⟨s'', hends⟩ := exists_endsEarly hfails
    obtain ⟨-, -, -, -, hrun⟩ := id hends
    obtain ⟨hanswer, rfl⟩ := Prod.mk.inj ((hrun engine).symm.trans h)
    obtain rfl := Except.ok.inj hanswer
    exact hends
  refine ⟨?_, ?_⟩
  · cases hrequest : CompileRequest.coerce input keywords with
    | error problems => exact .inl (hearly _ (.request hrequest))
    | ok request =>
      obtain ⟨located, loaded, hlocated, hload⟩ := exists_load_of_resolve hrequest h
      cases loaded with
      | error e => exact .inl (hearly _ (.load hrequest hlocated hload))
      | ok c =>
        cases hmerge : CompilerOptions.merge c.options request.overrides request.outputLocation
          (some c.baseDir) with
        | error e => exact .inl (hearly _ (.merge hrequest hlocated hload hmerge))
        | ok options =>
          exact .inr (asksEngine_of_readies (.unit hrequest hlocated hload hmerge) h)
  · rintro ⟨⟨failure, hfails, -⟩, _, _, _, _, _, hready, -⟩
    exact hready.not_failsEarly failure hfails

/-- A configuration that says nothing. -/
def bareProject : World := { nodes := [(["tsconfig.json"], .file [0x7b, 0x7d] false)] }

/-- An engine that reports something in both phases. -/
def complainer : Engine where
  name := "complainer"
  emit _ := return {
    pre := [{ message := .plain "Unused." }]
    emit := [{ message := .plain "Not written.", code := some 5033 }] }

/-- A request for the configuration that says nothing. -/
def bareRequest : CompileRequest.Input := .fields [("config_path", .str "/tsconfig.json")]

/-- No files, which are given all the same. -/
def noFiles : Fields := [("input_files", .arr [])]

/-- An invocation with an empty list of files, which has one end. -/
theorem resolve_bareProject : ∃ answer s',
    resolve complainer bareRequest noFiles { world := bareProject } = (.ok answer, s') ∧
      (EndsEarly bareRequest noFiles { world := bareProject } answer s' ∨
        AsksEngine complainer bareRequest noFiles { world := bareProject } answer s') ∧
      ¬(EndsEarly bareRequest noFiles { world := bareProject } answer s' ∧
        AsksEngine complainer bareRequest noFiles { world := bareProject } answer s') := by
  have hanswers : (resolve complainer bareRequest noFiles
      { world := bareProject }).1.toOption.isSome := by decide +kernel
  rcases hresolve : resolve complainer bareRequest noFiles { world := bareProject } with
    ⟨_ | answer, s'⟩
  · rw [hresolve] at hanswers
    cases hanswers
  · exact ⟨answer, s', rfl, resolve_spec hresolve⟩

end TsProject.Action

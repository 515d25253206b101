import TsProject.Diagnostic.Entry
import TsProject.Proofs.Engine.Exits

/-!
# How an emission ends

An emission that answers ends in one of six ways (`Compiler.Emits`): there is nothing to
compile, no command is found, the project file cannot be opened or not be written to its end, the
process does not start, or it finishes. Only the first is without a diagnostic by itself; the next
four report one each, and a process that finishes with a status other than zero is never without
one, because the statuses that are not the compiler's own are reported always and the others when
nothing else is.
`emit_success_iff` says when an emission counts as a success.
-/

namespace TsProject.Compiler

variable {c : Compiler} {u : CompilationUnit} {s s' : Session} {result : EmitResult}

/-! ### The ways to end -/

/-- **What an emission answers**, by the way in which it ends. -/
inductive Emits (c : Compiler) (w : World) (u : CompilationUnit) : EmitResult → Prop
  | nothing : u.inputFiles = [] → Emits c w u { skipped := true }
  | notFound : u.inputFiles ≠ [] → c.resolveCommand w u.baseDir = .ok none →
      Emits c w u (failedRun notFoundText)
  | notWritten {command : List String} {e : OsError} : u.inputFiles ≠ [] →
    c.resolveCommand w u.baseDir = .ok (some command) →
    c.writeProject w u = .error (.refused e) →
      Emits c w u (failedWrite (c.projectFile u.baseDir) e.message)
  | brokenOff {command : List String} {cause : OsCause} {begun : World} : u.inputFiles ≠ [] →
    c.resolveCommand w u.baseDir = .ok (some command) →
    c.writeProject w u = .ok (begun, some cause) →
      Emits c w u (failedWrite (c.projectFile u.baseDir) cause.message)
  | notStarted {command : List String} {e : OsError} : u.inputFiles ≠ [] →
    Ends c w u command (.notStarted e) →
      Emits c w u (failedRun
        ("Cannot run TypeScript compiler '" ++ command.headD "" ++ "': " ++ e.message))
  | finished {command : List String} {status : Int} {stdout stderr : List UInt8}
    {output : Output} : u.inputFiles ≠ [] →
    Ends c w u command (.finished status stdout stderr) →
    Output.parse (Utf8.decodeReplacing stdout) u.baseDir = .ok output →
      Emits c w u (resultOf status output stderr)

/-- **Every emission that answers** ends in one of these ways. -/
theorem emits_of_emit (h : c.emit u s = (.ok result, s')) : Emits c s.world u result := by
  obtain ⟨r, w, started, ⟨s₁, hrun, -, -⟩, hexits⟩ := exits_emit c u s
  obtain ⟨rfl, -⟩ := Prod.mk.inj (hrun.symm.trans h)
  cases hexits with
  | nothing hfiles => exact .nothing hfiles
  | notFound hfiles hcommand => exact .notFound hfiles hcommand
  | notWritten hfiles hcommand _ hwrite => exact .notWritten hfiles hcommand hwrite
  | brokenOff hfiles hcommand _ hwrite => exact .brokenOff hfiles hcommand hwrite
  | notStarted hstarts hprocess => exact .notStarted hstarts.files (hprocess ▸ hstarts.ends)
  | finished hstarts hprocess hparse =>
    exact .finished hstarts.files (hprocess ▸ hstarts.ends) hparse

/-! ### Success -/

/-- **A status other than zero** is reported where nothing else is. -/
theorem exitDiagnostics_ne_nil {status : Int} {output : Output} {stderr : List UInt8}
    (hstatus : status ≠ 0) (hpre : output.pre = []) (hemit : output.emit = []) :
    exitDiagnostics status output stderr ≠ [] := by
  simp [exitDiagnostics, hstatus, hpre, hemit]

/-- The status zero is not reported. -/
theorem exitDiagnostics_zero (output : Output) (stderr : List UInt8) :
    exitDiagnostics 0 output stderr = [] := by
  simp [exitDiagnostics, ownStatuses]

theorem collect_eq_success_iff {pre emit : List Diagnostic} :
    Outcome.collect pre emit = .success ↔ pre = [] ∧ emit = [] := by
  by_cases h : pre = [] ∧ emit = []
  · obtain ⟨rfl, rfl⟩ := h
    exact iff_of_true rfl ⟨rfl, rfl⟩
  · rw [Outcome.collect_eq_failure h]
    exact iff_of_false (by rintro ⟨⟩) h

/-- **A process that finishes** is without diagnostics exactly when its status is zero and there
are none in its output. -/
theorem resultOf_eq_nil_iff {status : Int} {output : Output} {stderr : List UInt8} :
    (resultOf status output stderr).pre = [] ∧ (resultOf status output stderr).emit = [] ↔
      status = 0 ∧ output.pre = [] ∧ output.emit = [] := by
  simp only [resultOf, List.append_eq_nil_iff]
  constructor
  · rintro ⟨⟨hpre, hexit⟩, hemit⟩
    exact ⟨by_contra fun hstatus => exitDiagnostics_ne_nil hstatus hpre hemit hexit, hpre, hemit⟩
  · rintro ⟨rfl, hpre, hemit⟩
    exact ⟨⟨hpre, exitDiagnostics_zero output stderr⟩, hemit⟩

/-- Where the process finishes, the answer is made of its output and its status. -/
theorem Emits.resultOf_of_ends {w : World} {command : List String} {status : Int}
    {stdout stderr : List UInt8} (h : Emits c w u result) (hfiles : u.inputFiles ≠ [])
    (hends : Ends c w u command (.finished status stdout stderr)) :
    ∃ output, Output.parse (Utf8.decodeReplacing stdout) u.baseDir = .ok output ∧
      result = resultOf status output stderr := by
  cases h with
  | nothing hnone => exact absurd hnone hfiles
  | notFound _ hcommand => cases hcommand.symm.trans hends.found
  | notWritten _ _ hwrite | brokenOff _ _ hwrite =>
    obtain ⟨_, hwrite', -⟩ := hends.run
    cases hwrite.symm.trans hwrite'
  | notStarted _ hends' => cases (hends.unique hends').2
  | finished _ hends' hparse =>
    obtain ⟨rfl, rfl, rfl⟩ := ProcessEnd.finished.inj (hends.unique hends').2
    exact ⟨_, hparse, rfl⟩

/-- **Nothing that the output says is lost.** -/
theorem mem_entriesOf_resultOf {output : Output} {entry : Entry} (status : Int)
    (stderr : List UInt8) (h : entry ∈ entriesOf output.pre output.emit) :
    entry ∈ entriesOf (resultOf status output stderr).pre (resultOf status output stderr).emit := by
  rcases List.mem_append.mp h with hpre | hemit
  · rw [entriesOf, resultOf, List.map_append]
    exact List.mem_append_left _ (List.mem_append_left _ hpre)
  · exact List.mem_append_right _ hemit

/-- **When an emission counts as a success**, by the way in which it ends. -/
theorem Emits.success_iff {w : World} (h : Emits c w u result) :
    Outcome.collect result.pre result.emit = .success ↔
      u.inputFiles = [] ∨ ∃ command stdout stderr output,
        Ends c w u command (.finished 0 stdout stderr) ∧
          Output.parse (Utf8.decodeReplacing stdout) u.baseDir = .ok output ∧
          output.pre = [] ∧ output.emit = [] := by
  have hfailed : ∀ text, Outcome.collect (failedRun text).pre (failedRun text).emit ≠ .success :=
    fun text hsuccess => List.cons_ne_nil _ _ (collect_eq_success_iff.mp hsuccess).1
  cases h with
  | nothing hfiles => exact iff_of_true rfl (.inl hfiles)
  | notFound hfiles hcommand =>
    refine iff_of_false (hfailed _) ?_
    rintro (hnone | ⟨_, _, _, _, hends, -⟩)
    · exact hfiles hnone
    · cases hcommand.symm.trans hends.found
  | notWritten hfiles hcommand hwrite | brokenOff hfiles hcommand hwrite =>
    refine iff_of_false (hfailed _) ?_
    rintro (hnone | ⟨_, _, _, _, ⟨-, _, hwrite', -⟩, -⟩)
    · exact hfiles hnone
    · cases hwrite.symm.trans hwrite'
  | notStarted hfiles hends =>
    refine iff_of_false (hfailed _) ?_
    rintro (hnone | ⟨_, _, _, _, hends', -⟩)
    · exact hfiles hnone
    · cases (hends.unique hends').2
  | finished hfiles hends hparse =>
    rw [collect_eq_success_iff, resultOf_eq_nil_iff]
    constructor
    · rintro ⟨rfl, hpre, hemit⟩
      exact .inr ⟨_, _, _, _, hends, hparse, hpre, hemit⟩
    · rintro (hnone | ⟨_, _, _, _, hends', hparse', hpre, hemit⟩)
      · exact absurd hnone hfiles
      · obtain ⟨rfl, rfl, rfl⟩ := ProcessEnd.finished.inj (hends.unique hends').2
        obtain rfl := Except.ok.inj (hparse.symm.trans hparse')
        exact ⟨rfl, hpre, hemit⟩

/-- **What is reported where the compiler was run**: a status other than zero is, in some way, and
all that the output says. -/
theorem Emits.reports_of_ends {w : World} {command : List String} {status : Int}
    {stdout stderr : List UInt8} (h : Emits c w u result) (hfiles : u.inputFiles ≠ [])
    (hends : Ends c w u command (.finished status stdout stderr)) :
    (status ≠ 0 → result.pre ++ result.emit ≠ []) ∧
      ∃ output, Output.parse (Utf8.decodeReplacing stdout) u.baseDir = .ok output ∧
        ∀ entry ∈ entriesOf output.pre output.emit, ∃ entries,
          Outcome.collect result.pre result.emit = .failure entries ∧ entry ∈ entries := by
  obtain ⟨output, hparse, rfl⟩ := h.resultOf_of_ends hfiles hends
  refine ⟨fun hstatus hnone => ?_, output, hparse, fun entry hentry => ?_⟩
  · obtain ⟨hpre, hemit⟩ := List.append_eq_nil_iff.mp hnone
    exact hstatus (resultOf_eq_nil_iff.mp ⟨hpre, hemit⟩).1
  · have hmem := mem_entriesOf_resultOf status stderr hentry
    refine ⟨_, Outcome.collect_eq_failure fun hnone => ?_, hmem⟩
    rw [entriesOf_eq_nil_iff.mpr hnone] at hmem
    cases hmem

/-- **No false success and no false failure.** An emission counts as a success exactly when there
was nothing to compile, or the compiler was found and run, ended with the status zero and reported
nothing. Where the compiler was run at all, a status other than zero is never without a
diagnostic, and everything that it reported is among the entries. -/
theorem emit_success_iff (h : c.emit u s = (.ok result, s')) :
    (Outcome.collect result.pre result.emit = .success ↔
      u.inputFiles = [] ∨ ∃ command stdout stderr output,
        Ends c s.world u command (.finished 0 stdout stderr) ∧
          Output.parse (Utf8.decodeReplacing stdout) u.baseDir = .ok output ∧
          output.pre = [] ∧ output.emit = []) ∧
    ∀ command status stdout stderr, u.inputFiles ≠ [] →
      Ends c s.world u command (.finished status stdout stderr) →
        (status ≠ 0 → result.pre ++ result.emit ≠ []) ∧
        ∃ output, Output.parse (Utf8.decodeReplacing stdout) u.baseDir = .ok output ∧
          ∀ entry ∈ entriesOf output.pre output.emit, ∃ entries,
            Outcome.collect result.pre result.emit = .failure entries ∧ entry ∈ entries := by
  have hemits := emits_of_emit h
  exact ⟨hemits.success_iff, fun command status stdout stderr hfiles hends =>
    hemits.reports_of_ends hfiles hends⟩

/-- A compiler that reports something and is then killed. -/
def killed : Compiler where
  command := ["tsc"]
  settings := {}
  process _ := .finished (-9) ("error TS1005: Expected.".toList.map fun c => c.toNat.toUInt8) []

/-- A unit with a file. -/
def oneFile : CompilationUnit := .make ["a.ts"] [] "/" none "/"

/-- What a compiler reports before it is killed is among the entries, and its end is no
success. -/
theorem emit_killed : ∃ result s', killed.emit oneFile { world := {} } = (.ok result, s') ∧
    Outcome.collect result.pre result.emit ≠ .success ∧ result.pre ++ result.emit ≠ [] ∧
    ∃ entries, Outcome.collect result.pre result.emit = .failure entries ∧
      { message := "Expected.", phase := .preEmit, code := some 1005 } ∈ entries := by
  have hanswers : (killed.emit oneFile { world := {} }).1.toOption.isSome := by decide +kernel
  have hwritten : (killed.writeProject {} oneFile).toOption.any (·.2.isNone) := by decide +kernel
  have hentries : (Output.parse "error TS1005: Expected." "/").toOption.map
      (fun output => entriesOf output.pre output.emit) =
        some [{ message := "Expected.", phase := .preEmit, code := some 1005 }] := by
    decide +kernel
  have hstdout : Utf8.decodeReplacing
      ("error TS1005: Expected.".toList.map fun c => c.toNat.toUInt8) =
        "error TS1005: Expected." := by decide +kernel
  rcases hemit : killed.emit oneFile { world := {} } with ⟨_ | result, s'⟩
  · rw [hemit] at hanswers
    cases hanswers
  · rcases hwrite : killed.writeProject {} oneFile with _ | ⟨written, _ | cause⟩
    · rw [hwrite] at hwritten
      cases hwritten
    · have hends : Ends killed {} oneFile ["tsc"] (.finished (-9) _ []) :=
        ⟨rfl, written, hwrite, rfl⟩
      obtain ⟨hstatus, output, hparse, hall⟩ :=
        (emit_success_iff hemit).2 _ _ _ _ (List.cons_ne_nil _ _) hends
      rw [hstdout, show oneFile.baseDir = "/" from rfl] at hparse
      rw [hparse] at hentries
      have hentries : entriesOf output.pre output.emit =
          [{ message := "Expected.", phase := .preEmit, code := some 1005 }] :=
        Option.some.inj hentries
      obtain ⟨entries, hcollect, hmem⟩ := hall _ (hentries ▸ List.mem_singleton_self _)
      refine ⟨result, s', rfl, ?_, hstatus (by decide), entries, hcollect, hmem⟩
      rw [hcollect]
      rintro ⟨⟩
    · rw [hwrite] at hwritten
      cases hwritten

end TsProject.Compiler

import TsProject.Proofs.Diagnostic.Reading
import TsProject.Proofs.Engine.Emission
import TsProject.Proofs.Text.Words

/-!
# When an emission answers

Looking for the compiler answers unless the command line of the settings leaves something open or
the system refuses to look at a place where the compiler may be installed (`CanLook`). What comes
after it answers unless the unit cannot be made a project document, the project file cannot even
be removed, or the output has a number that is too long (`CanCompile`). These are all the
exceptions, and every failure to find the compiler, to write the file or to start the process
(`FailsToRun`) is reported by one diagnostic: `emit_answers_iff`.
-/

namespace TsProject

/-! ### Looking for the compiler -/

/-- Settings have command words, or none, exactly if their command line closes what it opens. -/
theorem EngineSettings.exists_commandArgs_iff {settings : EngineSettings} :
    (∃ args, settings.commandArgs = .ok args) ↔
      ∀ line, settings.command = some line → Text.IsQuoted line.toList := by
  rw [commandArgs]
  cases settings.command with
  | none => exact iff_of_true ⟨none, rfl⟩ (by simp)
  | some line =>
    simp only [Option.some.injEq, forall_eq']
    split_ifs with hblank
    · exact iff_of_true ⟨none, rfl⟩ (Text.isQuoted_of_isBlankText hblank)
    · rw [← Text.exists_words_iff]
      cases Text.words line <;> simp [Except.mapError, Except.map]

/-- Settings without command words have no command line, or a blank one. -/
theorem EngineSettings.commandArgs_eq_ok_none_iff {settings : EngineSettings} :
    settings.commandArgs = .ok none ↔
      ∀ line, settings.command = some line → Text.isBlankText line := by
  rw [commandArgs]
  cases settings.command with
  | none => simp
  | some line =>
    simp only [Option.some.injEq, forall_eq']
    split_ifs with hblank
    · exact iff_of_true rfl hblank
    · refine iff_of_false ?_ hblank
      cases Text.words line <;> simp [Except.mapError, Except.map]

/-- Command words are at least one. -/
theorem EngineSettings.ne_nil_of_commandArgs {settings : EngineSettings} {ws : List String}
    (h : settings.commandArgs = .ok (some ws)) : ws ≠ [] := by
  rw [commandArgs] at h
  cases hcommand : settings.command with
  | none => simp [hcommand] at h
  | some line =>
    rw [hcommand] at h
    dsimp only at h
    split_ifs at h with hblank
    · cases h
    · rintro rfl
      cases hwords : Text.words line with
      | error e =>
        rw [hwords] at h
        cases h
      | ok words =>
        rw [hwords] at h
        obtain rfl : words = [] := Option.some.inj (Except.ok.inj h)
        exact hblank (Text.isBlankText_of_words_eq_nil hwords)

namespace Compiler

variable {c : Compiler} {w w' : World} {u : CompilationUnit} {baseDir : String}

/-- **The compiler can be searched for** in some directories: the system refuses to look at none
of them, up to the first in which it is installed. -/
def CanSearch (w : World) (dirs : List String) : Prop :=
  ∀ before dir after, dirs = before ++ dir :: after →
    (∀ d ∈ before, w.isFile (installedIn d) = .ok false) →
      ∃ found, w.isFile (installedIn dir) = .ok found

theorem canSearch_cons_iff {dir : String} {dirs : List String} :
    CanSearch w (dir :: dirs) ↔ ∃ found, w.isFile (installedIn dir) = .ok found ∧
      (found = false → CanSearch w dirs) := by
  constructor
  · intro h
    obtain ⟨found, hfound⟩ := h [] dir dirs rfl (by simp)
    refine ⟨found, hfound, ?_⟩
    rintro rfl before next after rfl hbefore
    exact h (dir :: before) next after rfl (List.forall_mem_cons.mpr ⟨hfound, hbefore⟩)
  · rintro ⟨found, hfound, hrest⟩ before next after heq hbefore
    cases before with
    | nil =>
      obtain ⟨rfl, -⟩ := List.cons.inj heq
      exact ⟨found, hfound⟩
    | cons first before =>
      obtain ⟨rfl, rfl⟩ := List.cons.inj heq
      obtain ⟨hfirst, hbefore⟩ := List.forall_mem_cons.mp hbefore
      exact hrest (Except.ok.inj (hfound.symm.trans hfirst)) before next after rfl hbefore

theorem exists_installed?_iff {dirs : List String} :
    (∃ found, installed? w dirs = .ok found) ↔ CanSearch w dirs := by
  induction dirs with
  | nil => exact iff_of_true ⟨none, rfl⟩ fun before dir after heq => by simp at heq
  | cons dir dirs ih =>
    rw [canSearch_cons_iff, installed?, ← ih]
    cases w.isFile (installedIn dir) with
    | error e => simp [Except.mapError, bind, Except.bind]
    | ok found => cases found <;> simp [Except.mapError, bind, Except.bind, pure, Except.pure]

/-- **The compiler can be looked for**: unless the engine has a command of its own, the command
line of the settings closes what it opens, and where it has no words, the directories above the
configuration can be searched, if they are to be. -/
structure CanLook (c : Compiler) (w : World) (baseDir : String) : Prop where
  quoted : c.command = [] → ∀ line, c.settings.command = some line → Text.IsQuoted line.toList
  search : c.command = [] → (∀ line, c.settings.command = some line → Text.isBlankText line) →
    c.settings.searchModules → CanSearch w (baseDir :: Path.ancestors baseDir)

/-- **When looking for the compiler answers.** -/
theorem exists_resolveCommand_iff :
    (∃ found, c.resolveCommand w baseDir = .ok found) ↔ CanLook c w baseDir := by
  rw [resolveCommand]
  cases hown : c.command with
  | cons first rest =>
    refine iff_of_true ⟨_, rfl⟩ ⟨fun hnone => ?_, fun hnone => ?_⟩ <;>
      exact absurd (hown.symm.trans hnone) (List.cons_ne_nil first rest)
  | nil =>
    have hlook : CanLook c w baseDir ↔ (∃ args, c.settings.commandArgs = .ok args) ∧
        (c.settings.commandArgs = .ok none → c.settings.searchModules →
          ∃ found, installed? w (baseDir :: Path.ancestors baseDir) = .ok found) := by
      rw [EngineSettings.exists_commandArgs_iff, EngineSettings.commandArgs_eq_ok_none_iff,
        exists_installed?_iff]
      exact ⟨fun h => ⟨h.quoted hown, h.search hown⟩, fun h => ⟨fun _ => h.1, fun _ => h.2⟩⟩
    rw [hlook]
    cases hargs : c.settings.commandArgs with
    | error fault => simp [bind, Except.bind]
    | ok args =>
      rcases args with _ | _ | ⟨first, rest⟩
      · cases c.settings.searchModules with
        | false =>
          simp [bind, Except.bind, pure, Except.pure]
        | true =>
          cases installed? w (baseDir :: Path.ancestors baseDir) with
          | error fault => simp [bind, Except.bind]
          | ok found => cases found <;> simp [bind, Except.bind, pure, Except.pure]
      · exact absurd rfl (EngineSettings.ne_nil_of_commandArgs hargs)
      · exact iff_of_true ⟨_, rfl⟩ ⟨⟨_, rfl⟩, fun hnone => by cases hnone⟩

/-! ### Compiling -/

/-- **Compiling with a command can come to an end**: the unit can be made a project document, what
stands under the name of the project file can be removed, and what the compiler writes when it has
finished can be read. -/
structure CanCompile (c : Compiler) (w : World) (u : CompilationUnit) (command : List String) :
    Prop where
  even : u.oddOption? = none
  removable : ∃ cleared, w.unlink (c.projectFile u.baseDir) = .ok cleared
  readable : ∀ status stdout stderr, Ends c w u command (.finished status stdout stderr) →
    ∃ output, Output.parse (Utf8.decodeReplacing stdout) u.baseDir = .ok output

/-- **The compiler cannot be run**: it is not found, or its project file is not written to its end,
or its process is not started. -/
inductive FailsToRun (c : Compiler) (w : World) (u : CompilationUnit) : Prop
  | notFound : c.resolveCommand w u.baseDir = .ok none → FailsToRun c w u
  | notWritten {command : List String} : c.resolveCommand w u.baseDir = .ok (some command) →
    (∀ written, c.writeProject w u ≠ .ok (written, none)) → FailsToRun c w u
  | notStarted {command : List String} {e : OsError} :
    Ends c w u command (.notStarted e) → FailsToRun c w u

variable {s s' : Session} {r : Except Fault EmitResult} {result : EmitResult}
  {started : List ProcessStart}

/-- **An exit that answers** is one of a unit that can be compiled. -/
theorem Exits.canCompile (h : Exits c w u (.ok result) w' started) (hfiles : u.inputFiles ≠ []) :
    CanLook c w u.baseDir ∧
      ∀ command, c.resolveCommand w u.baseDir = .ok (some command) → CanCompile c w u command := by
  have hlook : ∀ {found}, c.resolveCommand w u.baseDir = .ok found → CanLook c w u.baseDir :=
    fun hfound => exists_resolveCommand_iff.mp ⟨_, hfound⟩
  cases h with
  | nothing hnone => exact absurd hnone hfiles
  | notFound _ hfound =>
    exact ⟨hlook hfound, fun command hcommand => by cases hfound.symm.trans hcommand⟩
  | notWritten _ hfound heven hwrite hunlink =>
    refine ⟨hlook hfound, fun command _ => ⟨heven, ⟨_, hunlink⟩, fun _ _ _ hends => ?_⟩⟩
    obtain ⟨written, hwritten, -⟩ := hends.run
    cases hwrite.symm.trans hwritten
  | brokenOff _ hfound heven hwrite =>
    refine ⟨hlook hfound, fun command _ => ⟨heven, (World.exists_unlink_of_write hwrite).1,
      fun _ _ _ hends => ?_⟩⟩
    obtain ⟨written, hwritten, -⟩ := hends.run
    cases hwrite.symm.trans hwritten
  | notStarted hstarts hprocess =>
    refine ⟨hlook hstarts.found, fun command _ => ⟨hstarts.even,
      (World.exists_unlink_of_write hstarts.write).1, fun _ _ _ hends => ?_⟩⟩
    cases hprocess.symm.trans (hstarts.ends.unique hends).2
  | finished hstarts hprocess hparse =>
    refine ⟨hlook hstarts.found, fun command _ => ⟨hstarts.even,
      (World.exists_unlink_of_write hstarts.write).1, fun _ _ _ hends => ?_⟩⟩
    have hended := hprocess.symm.trans (hstarts.ends.unique hends).2
    obtain ⟨rfl, rfl, rfl⟩ := ProcessEnd.finished.inj hended
    exact ⟨_, hparse⟩

/-- **An exit of a unit that can be compiled** answers. -/
theorem Exits.exists_answer (h : Exits c w u r w' started) (hlook : CanLook c w u.baseDir)
    (hcompile : ∀ command, c.resolveCommand w u.baseDir = .ok (some command) →
      CanCompile c w u command) : ∃ result, r = .ok result := by
  cases h with
  | nothing | notFound | notWritten | brokenOff | notStarted | finished => exact ⟨_, rfl⟩
  | notLooked _ hfault =>
    obtain ⟨found, hfound⟩ := exists_resolveCommand_iff.mpr hlook
    cases hfault.symm.trans hfound
  | odd _ hfound hodd => cases hodd.symm.trans (hcompile _ hfound).even
  | noPath _ hfound _ hwrite =>
    obtain ⟨cleared, hunlink⟩ := (hcompile _ hfound).removable
    cases (World.unlink_of_write_eq_embeddedNull hwrite).symm.trans hunlink
  | notCleared _ hfound _ _ hrefused =>
    obtain ⟨cleared, hunlink⟩ := (hcompile _ hfound).removable
    cases hrefused.symm.trans hunlink
  | unreadable hstarts hprocess hparse =>
    obtain ⟨output, hread⟩ :=
      (hcompile _ hstarts.found).readable _ _ _ (hprocess ▸ hstarts.ends)
    cases hparse.symm.trans hread

/-- **Failing to run the compiler** is answered with one text. -/
theorem Exits.eq_failedRun (h : Exits c w u (.ok result) w' started)
    (hfiles : u.inputFiles ≠ []) (hfails : FailsToRun c w u) :
    ∃ text, result = failedRun text := by
  cases h with
  | nothing hnone => exact absurd hnone hfiles
  | notFound | notWritten | brokenOff | notStarted => exact ⟨_, rfl⟩
  | finished hstarts hprocess =>
    cases hfails with
    | notFound hnone => cases hnone.symm.trans hstarts.found
    | notWritten hfound hwrite => exact absurd hstarts.write (hwrite _)
    | notStarted hends => cases hprocess.symm.trans (hstarts.ends.unique hends).2

/-- **When an emission answers.** It does exactly if there is nothing to compile, or the compiler
can be looked for and, where it is found, the unit can be compiled with it. Every output without a
number that is too long can be read. Where the compiler cannot be run, the answer is one
diagnostic of the first phase, and nothing has been written. -/
theorem emit_answers_iff (c : Compiler) (u : CompilationUnit) (s : Session) :
    ((∃ result s', c.emit u s = (.ok result, s')) ↔ u.inputFiles = [] ∨
      CanLook c s.world u.baseDir ∧ ∀ command,
        c.resolveCommand s.world u.baseDir = .ok (some command) → CanCompile c s.world u command) ∧
    (∀ text cwd, HasShortRuns text.toList → ∃ output, Output.parse text cwd = .ok output) ∧
    ∀ result s', c.emit u s = (.ok result, s') → u.inputFiles ≠ [] → FailsToRun c s.world u →
      ∃ d, result = { pre := [d], skipped := true } := by
  obtain ⟨r, w, started, ⟨s₁, hrun, -, -⟩, hexits⟩ := exits_emit c u s
  rw [hrun]
  refine ⟨⟨?_, ?_⟩, fun text cwd => Output.exists_parse cwd, ?_⟩
  · rintro ⟨result, s', heq⟩
    obtain ⟨rfl, -⟩ := Prod.mk.inj heq
    by_cases hfiles : u.inputFiles = []
    · exact .inl hfiles
    · exact .inr (hexits.canCompile hfiles)
  · rintro (hfiles | ⟨hlook, hcompile⟩)
    · cases hexits with
      | nothing => exact ⟨_, s₁, rfl⟩
      | notStarted hstarts | finished hstarts | unreadable hstarts =>
        exact absurd hfiles hstarts.files
      | _ hsome => exact absurd hfiles ‹u.inputFiles ≠ []›
    · obtain ⟨result, rfl⟩ := hexits.exists_answer hlook hcompile
      exact ⟨result, s₁, rfl⟩
  · rintro result s' heq hfiles hfails
    obtain ⟨rfl, -⟩ := Prod.mk.inj heq
    obtain ⟨text, rfl⟩ := hexits.eq_failedRun hfiles hfails
    exact ⟨_, rfl⟩

/-- A world whose command line for the compiler opens a quotation and does not close it. -/
def openQuotation : World := { env := [("KIST_TSC_COMMAND", "\"tsc")] }

/-- A command line that does not close a quotation is not reported: the emission ends in a
fault. -/
theorem not_forall_emit_answers : ¬∀ (w : World) (settings : EngineSettings)
    (process : ProcessStart → ProcessEnd) (u : CompilationUnit),
    EngineSettings.load w [] = .ok settings →
      ∃ result s', emit { settings, process } u { world := w } = (.ok result, s') := by
  intro h
  have hload : (EngineSettings.load openQuotation []).toOption =
      some { command := some "\"tsc" } := by decide +kernel
  rcases hsettings : EngineSettings.load openQuotation [] with fault | settings
  · rw [hsettings] at hload
    cases hload
  · rw [hsettings] at hload
    obtain rfl := Option.some.inj hload
    obtain ⟨result, s', hemit⟩ := h openQuotation _ killed.process oneFile hsettings
    have hfault : (emit { settings := { command := some "\"tsc" }, process := killed.process }
        oneFile { world := openQuotation }).1.toOption.isNone := by decide +kernel
    rw [hemit] at hfault
    cases hfault

end Compiler

end TsProject

import Mathlib.Logic.Basic
import Mathlib.Tactic.SplitIfs
import TsProject.Engine.Compiler
import TsProject.Proofs.Run
import TsProject.Proofs.World.Written

/-!
# The exits of an emission

An emission looks for the compiler, writes a project file, starts a process, removes the file and
reads what the process has written. `Compiler.Exits` has one rule for each point at which it can
be over, with an answer or in a fault, and says what has become of the world and which process has
been started. Everything about emissions follows from `exits_emit`, which is the only place where
their steps are followed one by one.

What has been written can always be removed, the whole file or the beginning of one, so that no
exit is missing behind a broken-off write, and none between the end of the process and the reading
of its output.
-/

namespace TsProject.Compiler

variable {c : Compiler} {u : CompilationUnit} {s : Session}

/-! ### The exits -/

/-- The process that compiles a unit, where `written` is the world with the project file. -/
def processOf (c : Compiler) (command : List String) (u : CompilationUnit) (written : World) :
    ProcessStart where
  args := command ++ arguments (c.projectFile u.baseDir)
  cwd := some u.baseDir
  project := (written.readBytes (c.projectFile u.baseDir)).toOption

/-- **The compiler ends** its work on a unit: a command has been found, the project file has been
written, and the process that was started with them ends in this way. -/
structure Ends (c : Compiler) (w : World) (u : CompilationUnit) (command : List String)
    (ended : ProcessEnd) : Prop where
  found : c.resolveCommand w u.baseDir = .ok (some command)
  run : ∃ written, c.writeProject w u = .ok (written, none) ∧
    c.process (c.processOf command u written) = ended

/-- A compiler ends its work on a unit in one way only. -/
theorem Ends.unique {w : World} {command command' : List String} {e e' : ProcessEnd}
    (h : Ends c w u command e) (h' : Ends c w u command' e') : command = command' ∧ e = e' := by
  obtain ⟨hcommand, written, hwrite, hended⟩ := h
  obtain ⟨hcommand', written', hwrite', hended'⟩ := h'
  obtain rfl := Option.some.inj (Except.ok.inj (hcommand.symm.trans hcommand'))
  obtain ⟨rfl, -⟩ := Prod.mk.inj (Except.ok.inj (hwrite.symm.trans hwrite'))
  exact ⟨rfl, hended.symm.trans hended'⟩

/-- **The process is started**: there are files to compile, a command has been found, the unit can
be made a project document, and the file has been written, with which the process is started and
which is removed when it has ended. -/
structure Starts (c : Compiler) (w : World) (u : CompilationUnit) (command : List String)
    (written cleared : World) : Prop where
  files : u.inputFiles ≠ []
  found : c.resolveCommand w u.baseDir = .ok (some command)
  even : u.oddOption? = none
  write : c.writeProject w u = .ok (written, none)
  unlink : written.unlink (c.projectFile u.baseDir) = .ok cleared

/-- **The exits of an emission**, each with the world that is left and the processes that have been
started. -/
inductive Exits (c : Compiler) (w : World) (u : CompilationUnit) :
    Except Fault EmitResult → World → List ProcessStart → Prop
  | nothing : u.inputFiles = [] → Exits c w u (.ok { skipped := true }) w []
  | notLooked {fault : Fault} : u.inputFiles ≠ [] →
    c.resolveCommand w u.baseDir = .error fault → Exits c w u (.error fault) w []
  | notFound : u.inputFiles ≠ [] → c.resolveCommand w u.baseDir = .ok none →
      Exits c w u (.ok (failedRun notFoundText)) w []
  | odd {command : List String} {name : String} : u.inputFiles ≠ [] →
    c.resolveCommand w u.baseDir = .ok (some command) → u.oddOption? = some name →
      Exits c w u (.error (.oddOption name)) w []
  | noPath {command : List String} : u.inputFiles ≠ [] →
    c.resolveCommand w u.baseDir = .ok (some command) → u.oddOption? = none →
    c.writeProject w u = .error .embeddedNull →
      Exits c w u (.error .embeddedNull) w []
  | notWritten {command : List String} {e : OsError} {cleared : World} : u.inputFiles ≠ [] →
    c.resolveCommand w u.baseDir = .ok (some command) → u.oddOption? = none →
    c.writeProject w u = .error (.refused e) →
    w.unlink (c.projectFile u.baseDir) = .ok cleared →
      Exits c w u (.ok (failedWrite (c.projectFile u.baseDir) e.message)) cleared []
  | notCleared {command : List String} {e : OsError} {refusal : AccessError} :
    u.inputFiles ≠ [] → c.resolveCommand w u.baseDir = .ok (some command) →
    u.oddOption? = none → c.writeProject w u = .error (.refused e) →
    w.unlink (c.projectFile u.baseDir) = .error refusal →
      Exits c w u (.error refusal.toFault) w []
  | brokenOff {command : List String} {cause : OsCause} {begun cleared : World} :
    u.inputFiles ≠ [] → c.resolveCommand w u.baseDir = .ok (some command) →
    u.oddOption? = none → c.writeProject w u = .ok (begun, some cause) →
    begun.unlink (c.projectFile u.baseDir) = .ok cleared →
      Exits c w u (.ok (failedWrite (c.projectFile u.baseDir) cause.message)) cleared []
  | notStarted {command : List String} {written cleared : World} {e : OsError} :
    Starts c w u command written cleared →
    c.process (c.processOf command u written) = .notStarted e →
      Exits c w u (.ok (failedRun ("Cannot run TypeScript compiler '" ++ command.headD "" ++
        "': " ++ e.message))) cleared [c.processOf command u written]
  | finished {command : List String} {written cleared : World} {status : Int}
    {stdout stderr : List UInt8} {output : Output} : Starts c w u command written cleared →
    c.process (c.processOf command u written) = .finished status stdout stderr →
    Output.parse (Utf8.decodeReplacing stdout) u.baseDir = .ok output →
      Exits c w u (.ok (resultOf status output stderr)) cleared [c.processOf command u written]
  | unreadable {command : List String} {written cleared : World} {status : Int}
    {stdout stderr : List UInt8} {fault : Fault} : Starts c w u command written cleared →
    c.process (c.processOf command u written) = .finished status stdout stderr →
    Output.parse (Utf8.decodeReplacing stdout) u.baseDir = .error fault →
      Exits c w u (.error fault) cleared [c.processOf command u written]

/-- A process that has been started has been found and has ended. -/
theorem Starts.ends {w : World} {command : List String} {written cleared : World}
    (h : Starts c w u command written cleared) :
    Ends c w u command (c.process (c.processOf command u written)) :=
  ⟨h.found, written, h.write, rfl⟩

/-! ### The steps of an emission -/

/-- The end of a process as a result. -/
def answerOf : ProcessEnd → Except OsError (Int × List UInt8 × List UInt8)
  | .notStarted e => .error e
  | .finished status stdout stderr => .ok (status, stdout, stderr)

theorem endsIn_unlink_of_ok {path : String} {cleared : World}
    (h : s.world.unlink path = .ok cleared) : Run.EndsIn s (unlink path) (.ok ()) cleared [] := by
  rw [unlink]
  refine Run.EndsIn.world_bind ?_
  rw [h]
  exact (Run.endsIn_setWorld s cleared).ofExcept_bind

theorem endsIn_unlink_of_error {path : String} {refusal : AccessError}
    (h : s.world.unlink path = .error refusal) :
    Run.EndsIn s (unlink path) (.error refusal.toFault) s.world [] := by
  rw [unlink]
  refine Run.EndsIn.world_bind ?_
  rw [h]
  exact (Run.endsIn_throw s refusal.toFault).bind_error

section Steps

variable {log : LogLevel → String → Fields → Run Unit} {command : List String}
  (hlog : ∀ s level event fields, Run.Says s (log level event fields) [] ())
include hlog

/-- **Starting the process** answers with how it has ended. -/
theorem endsIn_start (s : Session) :
    Run.EndsIn s (c.start log command u (c.projectFile u.baseDir))
      (.ok (answerOf (c.process (c.processOf command u s.world)))) s.world
      [c.processOf command u s.world] := by
  rw [start]
  refine (hlog s _ _ _).endsIn.bind fun s₁ h₁ => ?_
  refine Run.EndsIn.world_bind ?_
  rw [h₁]
  refine (Run.endsIn_noteStart s₁ (c.processOf command u s.world)).bind_idle fun s₂ h₂ => ?_
  have hworld : s₂.world = s.world := h₂.trans h₁
  change Run.EndsIn s₂ (match c.process (c.processOf command u s.world) with
    | .notStarted e => _
    | .finished status stdout stderr => _) _ _ _
  cases c.process (c.processOf command u s.world) with
  | notStarted e =>
    rw [← hworld]
    refine (hlog s₂ _ _ _).endsIn.bind fun s₃ h₃ => ?_
    exact h₃ ▸ (Run.Says.pure s₃ _).endsIn
  | finished status stdout stderr =>
    rw [← hworld]
    exact (Run.Says.pure s₂ _).endsIn

/-- **Starting it on the written file** and removing the file afterwards, whatever is done `next`
with the answer. -/
theorem endsIn_written {written cleared : World} {r : Except Fault EmitResult}
    {next : Except OsError (Int × List UInt8 × List UInt8) → Run EmitResult}
    (hunlink : written.unlink (c.projectFile u.baseDir) = .ok cleared)
    (hnext : ∀ s₁ : Session, s₁.world = cleared →
      Run.EndsIn s₁ (next (answerOf (c.process (c.processOf command u written)))) r cleared []) :
    Run.EndsIn s (Run.setWorld written >>= fun _ =>
        Run.ensuring (c.start log command u (c.projectFile u.baseDir))
          (unlink (c.projectFile u.baseDir)) >>= next)
      r cleared [c.processOf command u written] := by
  refine (Run.endsIn_setWorld s written).bind fun s₁ h₁ => ?_
  subst h₁
  have hended : Run.EndsIn s₁ (Run.ensuring (c.start log command u (c.projectFile u.baseDir))
      (unlink (c.projectFile u.baseDir))) _ cleared [c.processOf command u s₁.world] :=
    (endsIn_start hlog s₁).ensuring fun s' hs' => endsIn_unlink_of_ok (hs' ▸ hunlink)
  exact hended.bind_idle hnext

/-- **Giving up** removes what is there of the file, if it can be removed. -/
theorem endsIn_giveUp_of_ok {file error : String} {cleared : World}
    (h : s.world.unlink file = .ok cleared) :
    Run.EndsIn s (giveUp log file error) (.ok (failedWrite file error)) cleared [] := by
  refine (hlog s _ _ _).endsIn.bind fun s₁ h₁ => ?_
  refine (endsIn_unlink_of_ok (h₁ ▸ h)).bind fun s₂ h₂ => ?_
  exact h₂ ▸ (Run.Says.pure s₂ _).endsIn

theorem endsIn_giveUp_of_error {file error : String} {refusal : AccessError}
    (h : s.world.unlink file = .error refusal) :
    Run.EndsIn s (giveUp log file error) (.error refusal.toFault) s.world [] := by
  refine (hlog s _ _ _).endsIn.bind fun s₁ h₁ => ?_
  rw [← h₁]
  exact (endsIn_unlink_of_error (h₁ ▸ h)).bind_error

/-- **Where the file cannot be opened**, nothing of it is there to be removed. -/
theorem exits_emitWith_of_refused {e : OsError} (hfiles : u.inputFiles ≠ [])
    (hcommand : c.resolveCommand s.world u.baseDir = .ok (some command))
    (hodd : u.oddOption? = none) (hwrite : c.writeProject s.world u = .error (.refused e)) :
    ∃ r w started, Run.EndsIn s (c.emitWith log command u) r w started ∧
      Exits c s.world u r w started := by
  rw [emitWith, hodd]
  cases hunlink : s.world.unlink (c.projectFile u.baseDir) with
  | ok cleared =>
    refine ⟨_, _, _, Run.EndsIn.world_bind ?_,
      .notWritten hfiles hcommand hodd hwrite hunlink⟩
    rw [hwrite]
    exact endsIn_giveUp_of_ok hlog hunlink
  | error refusal =>
    refine ⟨_, _, _, Run.EndsIn.world_bind ?_,
      .notCleared hfiles hcommand hodd hwrite hunlink⟩
    rw [hwrite]
    exact endsIn_giveUp_of_error hlog hunlink

/-- **Where writing the file is broken off**, what has been written of it is removed. -/
theorem exits_emitWith_of_brokenOff {begun : World} {cause : OsCause} (hfiles : u.inputFiles ≠ [])
    (hcommand : c.resolveCommand s.world u.baseDir = .ok (some command))
    (hodd : u.oddOption? = none) (hwrite : c.writeProject s.world u = .ok (begun, some cause)) :
    ∃ r w started, Run.EndsIn s (c.emitWith log command u) r w started ∧
      Exits c s.world u r w started := by
  obtain ⟨-, cleared, hunlink⟩ := World.exists_unlink_of_write hwrite
  refine ⟨_, _, _, ?_, .brokenOff hfiles hcommand hodd hwrite hunlink⟩
  rw [emitWith, hodd]
  refine Run.EndsIn.world_bind ?_
  rw [hwrite]
  refine (Run.endsIn_setWorld s begun).bind fun s₁ h₁ => ?_
  exact endsIn_giveUp_of_ok hlog (h₁ ▸ hunlink)

/-- **Where the file is written**, the process is started and the file removed. -/
theorem exits_emitWith_of_written {written : World} (hfiles : u.inputFiles ≠ [])
    (hcommand : c.resolveCommand s.world u.baseDir = .ok (some command))
    (hodd : u.oddOption? = none) (hwrite : c.writeProject s.world u = .ok (written, none)) :
    ∃ r w started, Run.EndsIn s (c.emitWith log command u) r w started ∧
      Exits c s.world u r w started := by
  obtain ⟨-, cleared, hunlink⟩ := World.exists_unlink_of_write hwrite
  have hstarts : Starts c s.world u command written cleared :=
    ⟨hfiles, hcommand, hodd, hwrite, hunlink⟩
  rw [emitWith, hodd]
  cases hprocess : c.process (c.processOf command u written) with
  | notStarted e =>
    refine ⟨_, _, _, Run.EndsIn.world_bind ?_, .notStarted hstarts hprocess⟩
    rw [hwrite]
    refine endsIn_written hlog hunlink fun s₁ h₁ => ?_
    rw [hprocess]
    exact h₁ ▸ (Run.Says.pure s₁ _).endsIn
  | finished status stdout stderr =>
    cases hparse : Output.parse (Utf8.decodeReplacing stdout) u.baseDir with
    | error fault =>
      refine ⟨_, _, _, Run.EndsIn.world_bind ?_, .unreadable hstarts hprocess hparse⟩
      rw [hwrite]
      refine endsIn_written hlog hunlink fun s₁ h₁ => ?_
      rw [hprocess]
      dsimp only [answerOf]
      rw [hparse]
      exact h₁ ▸ (Run.endsIn_throw s₁ fault).bind_error
    | ok output =>
      refine ⟨_, _, _, Run.EndsIn.world_bind ?_, .finished hstarts hprocess hparse⟩
      rw [hwrite]
      refine endsIn_written hlog hunlink fun s₁ h₁ => ?_
      rw [hprocess]
      dsimp only [answerOf]
      rw [hparse]
      refine Run.EndsIn.ofExcept_bind ?_
      refine (Run.says_setAttributes s₁ _).endsIn.bind fun s₂ h₂ => ?_
      refine (hlog s₂ _ _ _).endsIn.bind fun s₃ h₃ => ?_
      exact h₁ ▸ h₂ ▸ h₃ ▸ (Run.Says.pure s₃ _).endsIn

/-- **Compiling with a command** that has been found. -/
theorem exits_emitWith (hfiles : u.inputFiles ≠ [])
    (hcommand : c.resolveCommand s.world u.baseDir = .ok (some command)) :
    ∃ r w started, Run.EndsIn s (c.emitWith log command u) r w started ∧
      Exits c s.world u r w started := by
  cases hodd : u.oddOption? with
  | some name =>
    refine ⟨_, _, _, ?_, .odd hfiles hcommand hodd⟩
    rw [emitWith, hodd]
    exact (Run.endsIn_throw s (.oddOption name)).bind_error
  | none =>
    rcases hwrite : c.writeProject s.world u with (e | _) | ⟨written, _ | cause⟩
    · exact exits_emitWith_of_refused hlog hfiles hcommand hodd hwrite
    · refine ⟨_, _, _, ?_, .noPath hfiles hcommand hodd hwrite⟩
      rw [emitWith, hodd]
      refine Run.EndsIn.world_bind ?_
      rw [hwrite]
      exact Run.endsIn_throw s _
    · exact exits_emitWith_of_written hlog hfiles hcommand hodd hwrite
    · exact exits_emitWith_of_brokenOff hlog hfiles hcommand hodd hwrite

end Steps

/-- **Every emission** is over at one of the exits. -/
theorem exits_emit (c : Compiler) (u : CompilationUnit) (s : Session) :
    ∃ r w started, Run.EndsIn s (c.emit u) r w started ∧ Exits c s.world u r w started := by
  have hlog : ∀ s level event fields, Run.Says s (Run.log level event
      ([("engine", .str binary), ("base_dir", .str u.baseDir)] ++ fields)) [] () :=
    fun s level event fields => Run.says_log s level event _
  rw [emit]
  obtain ⟨s₀, hworld, hspan⟩ := Run.exists_endsIn_withSpan (α := EmitResult) s
    ("tsc." ++ "emit") (("tsc.operation", .value (.str "emit")) ::
      (some ("tsc.base_dir", Attribute.value (.str u.baseDir))).toList)
  rw [← hworld]
  suffices hbody : ∃ r w started, Run.EndsIn s₀ _ r w started ∧ Exits c s₀.world u r w started by
    obtain ⟨r, w, started, hends, hexits⟩ := hbody
    exact ⟨r, w, started, hspan hends, hexits⟩
  by_cases hfiles : u.inputFiles = []
  · refine ⟨_, _, _, ?_, .nothing hfiles⟩
    rw [if_pos (by rw [hfiles, List.isEmpty_nil])]
    refine (hlog _ _ _ _).endsIn.bind fun s₁ h₁ => ?_
    refine (Run.says_setAttributes s₁ _).endsIn.bind fun s₂ h₂ => ?_
    exact h₁ ▸ h₂ ▸ (Run.Says.pure s₂ _).endsIn
  · rw [if_neg (by simpa using hfiles)]
    cases hcommand : c.resolveCommand s₀.world u.baseDir with
    | error fault =>
      refine ⟨_, _, _, Run.EndsIn.world_bind ?_, .notLooked hfiles hcommand⟩
      rw [hcommand]
      exact (Run.endsIn_throw _ fault).bind_error
    | ok found =>
      cases found with
      | none =>
        refine ⟨_, _, _, Run.EndsIn.world_bind ?_, .notFound hfiles hcommand⟩
        rw [hcommand]
        refine Run.EndsIn.ofExcept_bind ?_
        refine (hlog s₀ _ _ _).endsIn.bind fun s₁ h₁ => ?_
        exact h₁ ▸ (Run.Says.pure s₁ _).endsIn
      | some command =>
        obtain ⟨r, w, started, hends, hexits⟩ := exits_emitWith hlog hfiles hcommand
        refine ⟨r, w, started, Run.EndsIn.world_bind ?_, hexits⟩
        rw [hcommand]
        exact hends.ofExcept_bind

end TsProject.Compiler

import TsProject.Proofs.Engine.Emission

/-!
# What an emission leaves behind

The project file is there while the process runs and not before or after: an emission that finds
its name unused leaves the world as it was, however it ends. `Exits.world_eq` goes through the
exits; behind a file that was written, or begun and then broken off, lies `World.unlink_of_write`,
and in front of one that was not opened `World.unlink_of_isUnused`. A process is started at three
of the exits, all of which have passed through `Starts`, where the file holds the project document
(`Starts.project`).
-/

namespace TsProject.Compiler

variable {c : Compiler} {u : CompilationUnit} {w w' : World} {r : Except Fault EmitResult}
  {started : List ProcessStart} {command : List String} {written cleared : World}

/-- **The world comes back** once the process has been started and the file removed. -/
theorem Starts.cleared_eq (h : Starts c w u command written cleared)
    (hunused : w.IsUnused (c.projectFile u.baseDir)) : cleared = w := by
  have hremoved := (World.unlink_of_write hunused h.write).2
  exact Except.ok.inj (h.unlink.symm.trans hremoved)

/-- **The process sees the project document** of the unit, and nothing else, in the file. -/
theorem Starts.project (h : Starts c w u command written cleared)
    (hunused : w.IsUnused (c.projectFile u.baseDir)) :
    (c.processOf command u written).project = some (projectBytes w u) := by
  have hread := (World.unlink_of_write hunused h.write).1 rfl
  rw [processOf, hread]
  rfl

/-- **No exit leaves a trace** in the world. -/
theorem Exits.world_eq (h : Exits c w u r w' started)
    (hunused : w.IsUnused (c.projectFile u.baseDir)) : w' = w := by
  cases h with
  | nothing | notLooked | notFound | odd | noPath | notCleared => rfl
  | notWritten _ _ _ _ hunlink => exact World.unlink_of_isUnused hunused hunlink
  | brokenOff _ _ _ hwrite hunlink =>
    -- the file has been begun, so that only its removal brings the world back
    have hremoved := (World.unlink_of_write hunused hwrite).2
    exact Except.ok.inj (hunlink.symm.trans hremoved)
  | notStarted hstarts | finished hstarts | unreadable hstarts => exact hstarts.cleared_eq hunused

/-- **Nothing or one process is started**, and the latter only with a command that has been found
and a file that has been written. -/
theorem Exits.started_cases (h : Exits c w u r w' started) :
    started = [] ∨ ∃ command written cleared,
      Starts c w u command written cleared ∧ started = [c.processOf command u written] := by
  cases h with
  | nothing | notLooked | notFound | odd | noPath | notWritten | notCleared | brokenOff =>
    exact .inl rfl
  | notStarted hstarts | finished hstarts | unreadable hstarts =>
    exact .inr ⟨_, _, _, hstarts, rfl⟩

/-- **The project file never survives.** However an emission ends that finds the name of the
project file unused, it leaves the world as it was, wherever the system breaks off writing the
file. It has started at most one process, on the project file in the directory of the unit, at a
moment at which the file held the project document of the unit; and none where there is nothing to
compile, no command is found or the file is not written to its end. -/
theorem emit_leaves_world {s s' : Session} (h : c.emit u s = (r, s'))
    (hunused : s.world.IsUnused (c.projectFile u.baseDir)) :
    s'.world = s.world ∧ ∃ started, s'.starts = s.starts ++ started ∧ started.length ≤ 1 ∧
      (∀ p ∈ started, p.project =
          some (Utf8.encode ((u.projectDocument s.world.cwdText).renderIndented 0)) ∧
        p.cwd = some u.baseDir ∧ ∃ command,
          c.resolveCommand s.world u.baseDir = .ok (some command) ∧
          p.args = command ++ arguments (c.projectFile u.baseDir)) ∧
      (u.inputFiles = [] ∨
        (∀ command, c.resolveCommand s.world u.baseDir ≠ .ok (some command)) ∨
        (∀ written, c.writeProject s.world u ≠ .ok (written, none)) → started = []) := by
  obtain ⟨r', w, started, ⟨s₁, hrun, hworld, hstarts⟩, hexits⟩ := exits_emit c u s
  obtain ⟨rfl, rfl⟩ := Prod.mk.inj (hrun.symm.trans h)
  refine ⟨hworld.trans (hexits.world_eq hunused), started, hstarts, ?_⟩
  rcases hexits.started_cases with rfl | ⟨command, written, cleared, hready, rfl⟩
  · exact ⟨Nat.zero_le 1, fun p hp => absurd hp List.not_mem_nil, fun _ => rfl⟩
  · refine ⟨Nat.le_refl 1, fun p hp => ?_, fun hnone => absurd hnone ?_⟩
    · obtain rfl := List.mem_singleton.mp hp
      exact ⟨hready.project hunused, rfl, command, hready.found, rfl⟩
    · rintro (hfiles | hcommand | hwrite)
      · exact hready.files hfiles
      · exact hcommand command hready.found
      · exact hwrite written hready.write

/-- A compiler with a disk on which a file can be begun, but has no room for any of its bytes. -/
def fullDisk : Compiler :=
  { killed with disk := fun _ _ => some ⟨0, .other 28 "No space left on device"⟩ }

/-- In a world with nothing in it no file has the name of a project file. -/
theorem isUnused_empty (c : Compiler) (hfind : (World.find {} false
    (c.projectFile oneFile.baseDir)).toOption.all fun spot => spot.node.isNone) :
    World.IsUnused {} (c.projectFile oneFile.baseDir) := by
  intro spot hspot
  rw [hspot] at hfind
  exact Option.isNone_iff_eq_none.mp hfind

/-- In a world with nothing in it the compiler is started once, on the project document, and
nothing is left. On a full disk it is not started, and nothing is left of the file that has been
begun. -/
theorem emit_leaves_nothing : World.IsUnused {} (killed.projectFile oneFile.baseDir) ∧
    World.IsUnused {} (fullDisk.projectFile oneFile.baseDir) ∧
    (∃ r s' p, killed.emit oneFile { world := {} } = (r, s') ∧ s'.world = {} ∧ s'.starts = [p] ∧
      p.project = some (projectBytes {} oneFile)) ∧
    ∃ begun cause r s', fullDisk.writeProject {} oneFile = .ok (begun, some cause) ∧ begun ≠ {} ∧
      fullDisk.emit oneFile { world := {} } = (r, s') ∧ s'.world = {} ∧ s'.starts = [] := by
  have hkilled := isUnused_empty killed (by decide +kernel)
  have hfull := isUnused_empty fullDisk (by decide +kernel)
  refine ⟨hkilled, hfull, ?_, ?_⟩
  · have hcount : (killed.emit oneFile { world := {} }).2.starts.length = 1 := by decide +kernel
    rcases hemit : killed.emit oneFile { world := {} } with ⟨r, s'⟩
    rw [hemit] at hcount
    obtain ⟨p, hp⟩ := List.length_eq_one_iff.mp hcount
    obtain ⟨hworld, started, hstarts, -, hproject, -⟩ := emit_leaves_world hemit hkilled
    obtain rfl : started = [p] := hstarts.symm.trans hp
    exact ⟨r, s', p, rfl, hworld, hp, (hproject p (List.mem_singleton_self p)).1⟩
  · have hbegun : (fullDisk.writeProject {} oneFile).toOption.any
        (fun written => decide (written.1 ≠ {}) && written.2.isSome) := by decide +kernel
    rcases hwrite : fullDisk.writeProject {} oneFile with _ | ⟨begun, _ | cause⟩
    · rw [hwrite] at hbegun
      cases hbegun
    · simp [hwrite, Except.toOption] at hbegun
    · rcases hemit : fullDisk.emit oneFile { world := {} } with ⟨r, s'⟩
      obtain ⟨hworld, started, hstarts, -, -, hnone⟩ := emit_leaves_world hemit hfull
      obtain rfl := hnone (.inr (.inr fun written hwritten => by cases hwrite.symm.trans hwritten))
      refine ⟨begun, cause, r, s', rfl, ?_, rfl, hworld, hstarts⟩
      simpa [hwrite, Except.toOption] using hbegun

end TsProject.Compiler

import TsProject.Proofs.Path.Below
import TsProject.Proofs.World.Lookup
import TsProject.Selection.Walk

/-!
# Other working directories

`World.moveTo` is the same world with another working directory. A way through the tree starts
there only where its path is relative, so that an absolute path leads to the same spot from
everywhere, is answered in the same way and has the same files below it.
-/

namespace TsProject.World

/-- The world with another working directory. -/
def moveTo (w : World) (cwd : Location) : World := { w with cwd }

variable {w : World} {cwd : Location}

@[simp] theorem nodeAt_moveTo (loc : Location) : (w.moveTo cwd).nodeAt loc = w.nodeAt loc := rfl

@[simp] theorem entries_moveTo (loc : Location) : (w.moveTo cwd).entries loc = w.entries loc := rfl

@[simp] theorem walkLevels_moveTo : (w.moveTo cwd).walkLevels = w.walkLevels := rfl

/-! ### Ways -/

theorem leadWith_moveTo (jump : Spot → String → Except OsCause Spot) (follow : Bool) (spot : Spot)
    (names : List String) :
    (w.moveTo cwd).leadWith jump follow spot names = w.leadWith jump follow spot names := by
  induction names generalizing spot with
  | nil => rfl
  | cons name names ih => simp only [leadWith, nodeAt_moveTo, ih]

theorem jump_moveTo (n : Nat) : (w.moveTo cwd).jump n = w.jump n := by
  induction n with
  | zero => rfl
  | succ n ih =>
    funext spot target
    rw [jump, jump, ih, leadWith_moveTo]

/-! ### Absolute paths -/

section Absolute

variable {path : String} (h : Path.isAbsolute path)
include h

/-- **An absolute path leads to one spot** from everywhere. -/
theorem find_moveTo (follow : Bool) : (w.moveTo cwd).find follow path = w.find follow path := by
  rw [find, find, lead, lead, origin, origin, if_pos h, if_pos h, jump_moveTo, leadWith_moveTo]

theorem existing_moveTo : (w.moveTo cwd).existing path = w.existing path := by
  rw [existing, existing, find_moveTo h]

theorem ask_moveTo (kind : Node → Bool) : (w.moveTo cwd).ask kind path = w.ask kind path := by
  rw [ask, ask, existing_moveTo h]

theorem isFile_moveTo : (w.moveTo cwd).isFile path = w.isFile path := ask_moveTo h isFileNode

theorem isDir_moveTo : (w.moveTo cwd).isDir path = w.isDir path := ask_moveTo h isDirNode

theorem readText_moveTo : (w.moveTo cwd).readText path = w.readText path := by
  rw [readText, readText, readBytes, readBytes, existing_moveTo h]

end Absolute

/-! ### Walks -/

theorem entrySpot_moveTo (dir : Spot) (name path : String) :
    (w.moveTo cwd).entrySpot dir name path = w.entrySpot dir name path := by
  rw [entrySpot, entrySpot, nodeAt_moveTo, jump_moveTo]

theorem listing_moveTo (dir : Spot) (path : String) :
    (w.moveTo cwd).listing dir path = w.listing dir path := by
  simp only [listing, entries_moveTo, entrySpot_moveTo]

theorem walkFrom_moveTo (fuel : Nat) (dir : Spot) (path : String) :
    (w.moveTo cwd).walkFrom fuel dir path = w.walkFrom fuel dir path := by
  induction fuel generalizing dir path with
  | zero => rfl
  | succ fuel ih => simp only [walkFrom, listing_moveTo, ih]

/-- **The files below an absolute path** are the same from everywhere. -/
theorem walk_moveTo {path : String} (h : Path.isAbsolute path) :
    (w.moveTo cwd).walk path = w.walk path := by
  simp only [walk, existing_moveTo h, walkLevels_moveTo, walkFrom_moveTo]

end TsProject.World

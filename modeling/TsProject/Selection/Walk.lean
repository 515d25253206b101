import TsProject.Selection.Spec
import TsProject.World.Access

/-!
# Walking directories

`World.walk` lists the files below a directory, those of the directory itself first and then
those below each subdirectory, both in order of name. Links are followed; hidden directories and
package directories are not entered. A directory that cannot be listed, and an entry that leads
nowhere, are passed over.

Going down either follows a link, of which a way has only so many, or descends one level of the
tree, so the number of levels is bounded by the number of links and the depth of the tree. It is
assumed that all of them can be gone down: a machine that allows fewer calls within calls, some
hundreds of them, breaks the walk off, which is not modelled.

`walkRoots` chooses the directories to walk for a list of specifications: their bases, without
those that lie below another.
-/

namespace TsProject

namespace World

/-- A directory of this name is not entered. -/
def isClosedName (name : String) : Bool :=
  Text.startsWith name "." || packageDirs.contains name

/-- The spot of an entry of a listed directory, links followed, if it leads anywhere. `path` is
the text of the entry. -/
def entrySpot (w : World) (dir : Spot) (name path : String) : Option Spot :=
  let location := dir.location ++ [name]
  match w.nodeAt location with
  | some (.link target) =>
    if pathLimit ≤ path.utf8ByteSize then none
    else
      match w.jump maxLinks dir target with
      | .ok spot => if spot.node.isSome then some spot else none
      | .error _ => none
  | some node => some ⟨location, dir.links, some node⟩
  | none => none

/-- An entry of a directory: its text and where it leads. -/
structure Entry where
  name : String
  path : String
  spot : Spot

/-- The entries of a directory that lead somewhere, in order of name. -/
def listing (w : World) (dir : Spot) (path : String) : List Entry :=
  if pathLimit ≤ path.utf8ByteSize then []
  else
    (w.entries dir.location).filterMap fun name =>
      let path := Path.join path name
      (w.entrySpot dir name path).map fun spot => ⟨name, path, spot⟩

/-- The files below a directory, going down at most `fuel` levels. -/
def walkFrom (w : World) : (fuel : Nat) → Spot → (path : String) → List String
  | 0, _, _ => []
  | fuel + 1, dir, path =>
    let found := w.listing dir path
    let files := found.filter fun e => e.spot.node.any isFileNode
    let dirs := found.filter fun e => e.spot.node.any isDirNode && !isClosedName e.name
    files.map (fun e => Path.normalize e.path) ++
      dirs.flatMap fun e => walkFrom w fuel e.spot e.path

/-- The levels that a walk can go down. -/
def walkLevels (w : World) : Nat := (maxLinks + 1) * (w.depth + 2)

/-- **The files below a directory.** -/
def walk (w : World) (path : String) : List String :=
  match w.existing path with
  | .ok spot => if spot.node = some .dir then w.walkFrom w.walkLevels spot path else []
  | .error _ => []

end World

namespace FileSpec

/-- `path` is `root` or lies below it. -/
def isWithin (root path : String) : Bool :=
  path == root ||
    Text.startsWith path
      (String.ofList ((root.toList.reverse.dropWhile (· = '/')).reverse ++ ['/']))

/-- Adds a directory to those to walk, unless it lies below one of them. -/
def addRoot (roots : List String) (base : String) : List String :=
  if roots.any (isWithin · base) then roots else roots ++ [base]

/-- **The directories to walk** for specifications. -/
def walkRoots (specs : List String) : List String :=
  (((specs.map base).eraseDups).mergeSort (· ≤ ·)).foldl addRoot []

end FileSpec

end TsProject

import TsProject.World.Access

/-!
# Changing the tree

Making directories and links, removing whole subtrees and moving the working directory: what
surrounds a run of the program rather than being part of it.
-/

namespace TsProject.World

/-- The world with a directory at the spot that a path leads to, and at all before it. -/
def makeDirs (w : World) (path : String) : World :=
  (Path.ancestors path).reverse.foldl makeDir w |> (makeDir · path)
where
  /-- Makes one directory in an existing one. -/
  makeDir (w : World) (path : String) : World :=
    match w.find true path with
    | .ok ⟨location, _, none⟩ => w.put location .dir
    | _ => w

/-- The world with a node at a path; the directories before it are made. -/
def place (w : World) (path : String) (node : Node) : World :=
  let w := w.makeDirs (Path.parent path)
  match node with
  | .dir => w.makeDirs path
  | .link _ =>
    match w.find false path with
    | .ok ⟨location, _, none⟩ => w.put location node
    | _ => w
  | .file _ _ =>
    match w.find true path with
    | .ok ⟨location, _, some (.file _ _)⟩ => w.put location node
    | .ok ⟨location, _, none⟩ => w.put location node
    | _ => w

/-- Removes a node and everything below it. -/
def removeTree (w : World) (path : String) : Except AccessError World := do
  let spot ← w.find false path
  if spot.node.isNone then .error (.refused ⟨.noSuchFile, path⟩)
  else
    .ok { w with nodes := w.nodes.filter fun entry => !spot.location.isPrefixOf entry.1 }

/-- Moves to a directory. -/
def changeDir (w : World) (path : String) : Except AccessError World := do
  let spot ← w.existing path
  if spot.node = some .dir then .ok { w with cwd := spot.location }
  else .error (.refused ⟨.notADirectory, path⟩)

/-- Sets an environment variable. -/
def setEnv (w : World) (name value : String) : World :=
  { w with env := w.env.filter (·.1 ≠ name) ++ [(name, value)] }

end TsProject.World

import TsProject.World.Basic
import TsProject.Text.Utf8
import TsProject.Text.Lines

/-!
# Access to files

Questions about paths, reading and writing files. A question about a path that leads nowhere is
answered with no; only a path that the system refuses for another reason is an error. Writing
creates a missing file in an existing directory and empties one that is there; when the system
breaks it off, as on a full disk, the file stays with what it has got. Removing takes away a file
or a link, not what a link leads to.
-/

namespace TsProject.World

/-- The spot of an existing node that a path leads to. -/
def existing (w : World) (path : String) : Except AccessError Spot := do
  let spot ← w.find true path
  if spot.node.isNone then .error (.refused ⟨.noSuchFile, path⟩) else .ok spot

/-- The cause means that there is nothing at the path. -/
def OsCause.isAbsence : OsCause → Bool
  | .noSuchFile | .notADirectory | .tooManyLinks => true
  | _ => false

/-- Asks whether a path leads to a node of some kind. -/
def ask (w : World) (kind : Node → Bool) (path : String) : Except OsError Bool :=
  match w.existing path with
  | .ok spot => .ok (spot.node.any kind)
  | .error .embeddedNull => .ok false
  | .error (.refused e) => if OsCause.isAbsence e.cause then .ok false else .error e

/-- The node is a regular file. -/
def isFileNode : Node → Bool
  | .file _ _ => true
  | _ => false

/-- The node is a directory. -/
def isDirNode (n : Node) : Bool := n == .dir

/-- The path leads to a regular file. -/
def isFile (w : World) (path : String) : Except OsError Bool := w.ask isFileNode path

/-- The path leads to a directory. -/
def isDir (w : World) (path : String) : Except OsError Bool := w.ask isDirNode path

/-- The path leads to a file that may be executed. -/
def isExecutable (w : World) (path : String) : Bool :=
  match w.existing path with
  | .ok ⟨_, _, some (.file _ executable)⟩ => executable
  | _ => false

/-- The bytes of the file that a path leads to. -/
def readBytes (w : World) (path : String) : Except AccessError (List UInt8) := do
  match (← w.existing path).node with
  | some (.file bytes _) => .ok bytes
  | _ => .error (.refused ⟨.isADirectory, path⟩)

/-- Why a file is no text. -/
inductive TextError where
  | access (error : AccessError)
  | decoding (error : Utf8.DecodeError)
  deriving DecidableEq, Repr

/-- The text of a file, its line endings made line feeds. -/
def readText (w : World) (path : String) : Except TextError String := do
  let bytes ← (w.readBytes path).mapError .access
  let text ← (Utf8.decode bytes).mapError .decoding
  return Text.unifyNewlines text

/-- The world with a node at a location. -/
def put (w : World) (loc : Location) (node : Node) : World :=
  if (w.nodes.lookup loc).isSome then
    { w with nodes := w.nodes.map fun entry => if entry.1 = loc then (loc, node) else entry }
  else { w with nodes := w.nodes ++ [(loc, node)] }

/-- The world without the node at a location. -/
def drop (w : World) (loc : Location) : World :=
  { w with nodes := w.nodes.filter fun entry => entry.1 ≠ loc }

/-- The world with a file of these bytes where a path leads to a file or to nothing. -/
def fill (w : World) (path : String) (bytes : List UInt8) : Except AccessError World := do
  let spot ← w.find true path
  match spot.node with
  | some .dir => .error (.refused ⟨.isADirectory, path⟩)
  | some (.file _ executable) => .ok (w.put spot.location (.file bytes executable))
  | _ => .ok (w.put spot.location (.file bytes false))

/-- Writing that the system breaks off: how many bytes are kept, and why there are no more. -/
structure WriteStop where
  kept : Nat
  cause : OsCause
  deriving DecidableEq, Repr

/-- The bytes that get into a file. -/
def keptBytes (stop? : Option WriteStop) (bytes : List UInt8) : List UInt8 :=
  match stop? with
  | none => bytes
  | some stop => bytes.take stop.kept

/-- **Writing** a file, which is created when it is missing: the world afterwards, and why writing
was broken off, if it was. A path that cannot be opened is an error, and nothing has changed. -/
def write (w : World) (stop? : Option WriteStop) (path : String) (bytes : List UInt8) :
    Except AccessError (World × Option OsCause) := do
  return (← w.fill path (keptBytes stop? bytes), stop?.map WriteStop.cause)

/-- **Removing** a file or a link; a path that leads nowhere is left as it is. -/
def unlink (w : World) (path : String) : Except AccessError World :=
  match w.find false path with
  | .error (.refused ⟨.noSuchFile, _⟩) => .ok w
  | .error e => .error e
  | .ok spot =>
    match spot.node with
    | none => .ok w
    | some .dir => .error (.refused ⟨.isADirectory, path⟩)
    | some _ => .ok (w.drop spot.location)

/-- The names in a directory, in order. -/
def entries (w : World) (loc : Location) : List String :=
  let found := w.nodes.filterMap fun entry =>
    if entry.1.dropLast = loc then entry.1.getLast? else none
  found.mergeSort (· ≤ ·)

/-- The greatest number of names in a location. -/
def depth (w : World) : Nat := w.nodes.foldl (fun d entry => max d entry.1.length) 0

/-- The search path where the environment has none. -/
def defaultSearchPath : String := "/bin:/usr/bin"

/-- The command of a name: the first executable file of that name in the directories that the
search path lists. An empty search path lists none. -/
def which (w : World) (command : String) : Option String :=
  let path := (w.getEnv "PATH").getD defaultSearchPath
  if path = "" then none
  else ((Text.splitOn ':' path).map (Path.join · command)).find? w.isExecutable

end TsProject.World

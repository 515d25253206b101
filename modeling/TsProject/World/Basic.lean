import TsProject.Path
import TsProject.Text.Quoted

/-!
# The world a program runs in

A world is a tree of files, directories and symbolic links, a working directory and an
environment. The tree is a list of nodes by location, a location being the list of names that
lead to it from the root; the root is a directory and has no node of its own.

`World.find` leads a path through the tree. A link is followed from the directory that holds it,
at most `maxLinks` of them on the whole way, so that every path is settled after finitely many
steps. The spot it leads to says which links are left, where the way ended, and what is there: a
node, or nothing when only the last name is missing.

Nodes have no owners and no permissions: every directory may be searched and listed, every file
may be read, written and removed.
-/

namespace TsProject

/-- The names that lead from the root to a node. -/
abbrev Location := List String

/-- A node of the file tree. -/
inductive Node where
  | dir
  | file (bytes : List UInt8) (executable : Bool)
  | link (target : String)
  deriving DecidableEq

/-- Files, working directory and environment. -/
structure World where
  nodes : List (Location × Node) := []
  cwd : Location := []
  env : List (String × String) := []
  /-- The home directories of the users that the system knows. -/
  homes : List (String × String) := []
  deriving DecidableEq

/-- Why the system refuses an operation. -/
inductive OsCause where
  | noSuchFile
  | notADirectory
  | isADirectory
  | nameTooLong
  | tooManyLinks
  | other (number : Nat) (text : String)
  deriving DecidableEq, Repr

/-- The number of the cause. -/
def OsCause.number : OsCause → Nat
  | .noSuchFile => 2
  | .notADirectory => 20
  | .isADirectory => 21
  | .nameTooLong => 36
  | .tooManyLinks => 40
  | .other n _ => n

/-- The text of the cause. -/
def OsCause.text : OsCause → String
  | .noSuchFile => "No such file or directory"
  | .notADirectory => "Not a directory"
  | .isADirectory => "Is a directory"
  | .nameTooLong => "File name too long"
  | .tooManyLinks => "Too many levels of symbolic links"
  | .other _ t => t

/-- The text of an error with this cause, where no path is named. -/
def OsCause.message (cause : OsCause) : String :=
  "[Errno " ++ toString cause.number ++ "] " ++ cause.text

/-- A refused operation on a path. -/
structure OsError where
  cause : OsCause
  path : String
  deriving DecidableEq, Repr

/-- The text of the error. -/
def OsError.message (e : OsError) : String :=
  e.cause.message ++ ": " ++ Text.quoted e.path

/-- Why a path is not accessible: the system refuses, or the text is no path at all. -/
inductive AccessError where
  | refused (error : OsError)
  | embeddedNull
  deriving DecidableEq, Repr

/-- The most links followed on one way. -/
def maxLinks : Nat := 40

/-- The most bytes of a name. -/
def maxNameBytes : Nat := 255

/-- The bytes at which a path is too long. -/
def pathLimit : Nat := 4096

namespace World

/-- The node at a location. -/
def nodeAt (w : World) (loc : Location) : Option Node :=
  if loc = [] then some .dir else w.nodes.lookup loc

/-- Where a way through the tree has led. -/
structure Spot where
  location : Location
  /-- The links that may still be followed. -/
  links : Nat
  node : Option Node
  deriving DecidableEq

/-- The names that a path text consists of. -/
def names (path : String) : List String := Text.splitOn '/' path

/-- Where a text's way starts: at the root, or at the location given. -/
def origin (path : String) (here : Location) : Location :=
  if Path.isAbsolute path then [] else here

/-- Leads `names` through the tree from a spot. `jump` says where a link found at a directory
leads; the last name of the way is followed through a link only when `follow` holds. -/
def leadWith (w : World) (jump : Spot → String → Except OsCause Spot) (follow : Bool) :
    Spot → List String → Except OsCause Spot
  | spot, [] => .ok spot
  | spot, name :: rest =>
    match spot.node with
    | none => .error .noSuchFile
    | some .dir =>
      if maxNameBytes < name.utf8ByteSize then .error .nameTooLong
      else if name = "" || name = "." then leadWith w jump follow spot rest
      else if name = ".." then
        leadWith w jump follow ⟨spot.location.dropLast, spot.links, some .dir⟩ rest
      else
        let location := spot.location ++ [name]
        match w.nodeAt location with
        | some (.link target) =>
          if rest = [] && !follow then .ok ⟨location, spot.links, some (.link target)⟩
          else do leadWith w jump follow (← jump spot target) rest
        | node => leadWith w jump follow ⟨location, spot.links, node⟩ rest
    | some _ => .error .notADirectory

/-- Follows a link found at the directory `spot`, through at most `n` levels of links. -/
def jump (w : World) : (n : Nat) → Spot → String → Except OsCause Spot
  | 0, _, _ => .error .tooManyLinks
  | n + 1, spot, target =>
    if spot.links = 0 then .error .tooManyLinks
    else
      leadWith w (jump w n) true ⟨origin target spot.location, spot.links - 1, some .dir⟩
        (names target)

/-- Where a path leads. -/
def lead (w : World) (follow : Bool) (path : String) : Except OsCause Spot :=
  if path = "" then .error .noSuchFile
  else if pathLimit ≤ path.utf8ByteSize then .error .nameTooLong
  else
    leadWith w (jump w maxLinks) follow ⟨origin path w.cwd, maxLinks, some .dir⟩ (names path)

/-- **Looking up a path**: the spot that it leads to, through a link at its end when `follow`
holds. -/
def find (w : World) (follow : Bool) (path : String) : Except AccessError Spot :=
  if path.toList.contains '\x00' then .error .embeddedNull
  else (w.lead follow path).mapError fun cause => .refused ⟨cause, path⟩

/-- The text of the working directory. -/
def cwdText (w : World) : String := "/" ++ "/".intercalate w.cwd

/-- The value of an environment variable. -/
def getEnv (w : World) (name : String) : Option String := w.env.lookup name

end World

end TsProject

import TsProject.Text.Split

/-!
# Paths

Paths are texts whose components are separated by slashes. One or two leading slashes make a
path absolute; exactly two are a root of their own and are kept, three or more count as one.

* `join` puts a path behind another; an absolute one stands for itself.
* `normalize` drops empty and `.` components and lets `..` cancel the component before it.
* `tidy` drops empty and `.` components only, so that a `..` behind a link keeps its meaning.
* `relativeTo` leads from one directory to a path, going up where they part.
-/

namespace TsProject.Path

/-- The components of a text, empty ones included. -/
def parts (cs : List Char) : List (List Char) := Text.splitOnChar '/' cs

/-- The number of slashes that make up the root: none, one or two. -/
def rootLength : List Char → Nat
  | '/' :: '/' :: '/' :: _ => 1
  | '/' :: '/' :: _ => 2
  | '/' :: _ => 1
  | _ => 0

/-- The component is empty or stands for the directory it is in. -/
def isIdle (part : List Char) : Bool := part = [] || part = ['.']

/-- The component that leads to the parent directory. -/
def up : List Char := ['.', '.']

/-- Puts a component on a stack of components, the last on top: `..` takes away the one before,
cannot leave a root, and stays where there is nothing to take away. -/
def push (rooted : Bool) (stack : List (List Char)) (part : List Char) : List (List Char) :=
  if isIdle part then stack
  else if part ≠ up then part :: stack
  else
    match stack with
    | [] => if rooted then [] else [up]
    | top :: rest => if top = up then up :: stack else rest

/-- The text of a root and components. -/
def assemble (root : Nat) (components : List (List Char)) : List Char :=
  match List.replicate root '/' ++ Text.joinWith '/' components with
  | [] => ['.']
  | cs => cs

/-- The normal form of a path. -/
def normalizeChars (cs : List Char) : List Char :=
  let root := rootLength cs
  assemble root ((parts cs).foldl (push (root ≠ 0)) []).reverse

/-- **Normal form**: no empty, `.` or avoidable `..` component, and no slash at the end. -/
def normalize (path : String) : String := String.ofList (normalizeChars path.toList)

/-- The components of a path without the empty and the `.` ones. -/
def solidParts (cs : List Char) : List (List Char) := (parts cs).filter (!isIdle ·)

/-- The path without empty and `.` components. -/
def tidy (path : String) : String :=
  String.ofList (assemble (rootLength path.toList) (solidParts path.toList))

/-- The path begins at a root. -/
def isAbsolute (path : String) : Bool := rootLength path.toList ≠ 0

/-- `path` put behind `base`. -/
def joinChars (base path : List Char) : List Char :=
  if rootLength path ≠ 0 then path
  else if base = [] || base.getLast? = some '/' then base ++ path
  else base ++ '/' :: path

/-- **Joining**: an absolute `path` stands for itself, any other goes behind `base`. -/
def join (base path : String) : String := String.ofList (joinChars base.toList path.toList)

/-- `path` resolved against `base`, in normal form. -/
def resolve (base path : String) : String := normalize (join base path)

/-- The tidy path of an entry below a directory. -/
def child (base name : String) : String := tidy (join base name)

/-- The last component of a tidy path, empty for a root. -/
def name (path : String) : String :=
  String.ofList ((solidParts path.toList).getLast?.getD [])

/-- The tidy path of the directory that a path is in; a root is in itself. -/
def parent (path : String) : String :=
  String.ofList (assemble (rootLength path.toList) (solidParts path.toList).dropLast)

/-- The proper prefixes of a list, the longest first. -/
def shorterPrefixes (parts : List (List Char)) : List (List (List Char)) :=
  (List.range parts.length).reverse.map fun n => parts.take n

/-- The directories that a path is in, the nearest first. -/
def ancestors (path : String) : List String :=
  (shorterPrefixes (solidParts path.toList)).map fun ps =>
    String.ofList (assemble (rootLength path.toList) ps)

/-- The text after the last slash. -/
def baseNameChars (cs : List Char) : List Char := (parts cs).getLast?.getD []

/-- The text after the last slash. -/
def baseName (path : String) : String := String.ofList (baseNameChars path.toList)

/-- A file name without its last extension; points in front of a name begin none. -/
def stemChars (cs : List Char) : List Char :=
  let file := baseNameChars cs
  let lead := file.takeWhile (· = '.')
  let body := file.drop lead.length
  if body.contains '.' then
    let extension := (body.reverse.takeWhile (· ≠ '.')).length + 1
    cs.take (cs.length - extension)
  else cs

/-- **Stem**: the path without the last extension of its file name. -/
def stem (path : String) : String := String.ofList (stemChars path.toList)

/-- What is left of two lists behind their common beginning. -/
def dropCommon [DecidableEq α] : List α → List α → List α × List α
  | a :: as, b :: bs => if a = b then dropCommon as bs else (a :: as, b :: bs)
  | as, bs => (as, bs)

/-- The path that leads from the directory `start` to `path`, both resolved against `cwd`. -/
def relativeTo (cwd start path : String) : String :=
  let components (p : String) := (parts (resolve cwd p).toList).filter (· ≠ [])
  let (back, ahead) := dropCommon (components start) (components path)
  let steps := back.map (fun _ => up) ++ ahead
  if steps.isEmpty then "." else String.ofList (Text.joinWith '/' steps)

end TsProject.Path

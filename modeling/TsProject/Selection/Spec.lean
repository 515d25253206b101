import TsProject.Text.Split

/-!
# File specifications

A specification is a path with wildcards: `*` stands for any characters of one component, `?` for
one of them, and a component `**` for any directories. It is taken apart into pieces, and a text
matches when it can be cut into parts that the pieces accept one after the other
(`matchesPieces`).

An include specification has to reach the end of the text, and its wildcards keep out of hidden
and of package directories: `**` passes through neither, and a component that begins with a
wildcard takes no name that begins with a dot and no package directory at the end. An exclude
specification knows no such limits, and it may also end where a directory of the text ends.
-/

namespace TsProject

/-- The directories that hold installed packages. -/
def packageDirs : List String := ["node_modules", "bower_components", "jspm_packages"]

namespace FileSpec

/-- A piece of a specification. -/
inductive Piece where
  /-- Exactly this character. -/
  | char (c : Char)
  /-- One character of a component. -/
  | one
  /-- Any characters of a component. -/
  | run
  /-- Nothing, where no dot follows. -/
  | notHidden
  /-- Nothing, where no package directory ends the text. -/
  | notPackage
  /-- Any directories that are neither hidden nor packages, each with a slash in front. -/
  | openDirs
  /-- Nothing, or a slash and characters up to any place. -/
  | anyDirs
  deriving DecidableEq, Repr

/-- The component holds a wildcard. -/
def hasWildcardChars (component : List Char) : Bool :=
  component.contains '*' || component.contains '?'

/-- The text holds a wildcard. -/
def hasWildcard (s : String) : Bool := hasWildcardChars s.toList

/-- The piece of a character of a component with wildcards. -/
def pieceOf (c : Char) : Piece := if c = '*' then .run else if c = '?' then .one else .char c

/-- The pieces of a component. -/
def componentPieces (exclude : Bool) (component : List Char) : List Piece :=
  if !hasWildcardChars component then component.map .char
  else
    let guards :=
      match component with
      | c :: _ => if !exclude && (c = '*' || c = '?') then [.notHidden, .notPackage] else []
      | [] => []
    guards ++ component.map pieceOf

/-- The component that stands for any directories. -/
def anyDirsName : List Char := ['*', '*']

/-- The pieces of components; a slash goes in front of every component but the first. -/
def piecesFrom (exclude : Bool) : (first : Bool) → List (List Char) → List Piece
  | _, [] => []
  | first, component :: rest =>
    (if component = anyDirsName then [if exclude then .anyDirs else .openDirs]
      else (if first then [] else [.char '/']) ++ componentPieces exclude component) ++
      piecesFrom exclude false rest

/-- **The pieces** of a specification. -/
def pieces (exclude : Bool) (spec : List Char) : List Piece :=
  piecesFrom exclude true (Text.splitOnChar '/' spec)

/-- The text is at its end, but for one line feed. -/
def atEnd : List Char → Bool
  | [] => true
  | ['\n'] => true
  | _ => false

/-- A package directory stands at the start of the text and is followed by what `next` takes. -/
def packageAhead (next : List Char → Bool) (cs : List Char) : Bool :=
  packageDirs.any fun name =>
    match Text.dropStart? name.toList cs with
    | some rest => next rest
    | none => false

/-- The text begins with a slash. -/
def atSlash : List Char → Bool
  | '/' :: _ => true
  | _ => false

/-- After some number of characters of the class `p`, `next` takes the rest. -/
def afterRun (p : Char → Bool) (next : List Char → Bool) : List Char → Bool
  | [] => next []
  | c :: rest => next (c :: rest) || (p c && afterRun p next rest)

/-- After some number of open directories, `next` takes the rest. Inside a directory, whose name
has begun, more of the name may come. -/
def afterOpenDirs (next : List Char → Bool) : (inside : Bool) → List Char → Bool
  | _, [] => next []
  | _, '/' :: c :: rest =>
    next ('/' :: c :: rest) ||
      (c != '/' && c != '.' && !packageAhead (fun r => atEnd r || atSlash r) (c :: rest) &&
        afterOpenDirs next true rest)
  | inside, c :: rest =>
    next (c :: rest) || (inside && c != '/' && afterOpenDirs next true rest)

/-- Here, or after a slash and at least one character, `next` takes the rest. -/
def afterAnyDirs (next : List Char → Bool) : List Char → Bool
  | '/' :: c :: rest =>
    next ('/' :: c :: rest) || (c != '\n' && afterRun (· != '\n') next rest)
  | cs => next cs

/-- **Matching**: the text can be cut into parts that the pieces accept in turn, the rest being
taken by `last`. -/
def matchesPieces (last : List Char → Bool) : List Piece → List Char → Bool
  | [], cs => last cs
  | .char a :: ps, c :: rest => a == c && matchesPieces last ps rest
  | .char _ :: _, [] => false
  | .one :: ps, c :: rest => c != '/' && matchesPieces last ps rest
  | .one :: _, [] => false
  | .run :: ps, cs => afterRun (· != '/') (matchesPieces last ps) cs
  | .notHidden :: ps, cs => cs.head? != some '.' && matchesPieces last ps cs
  | .notPackage :: ps, cs => !packageAhead atEnd cs && matchesPieces last ps cs
  | .openDirs :: ps, cs => afterOpenDirs (matchesPieces last ps) false cs
  | .anyDirs :: ps, cs => afterAnyDirs (matchesPieces last ps) cs

/-- Where a specification may end. -/
def ending (exclude : Bool) (cs : List Char) : Bool := atEnd cs || (exclude && atSlash cs)

/-- **The specification takes the path.** -/
def accepts (exclude : Bool) (spec path : String) : Bool :=
  matchesPieces (ending exclude) (pieces exclude spec.toList) path.toList

/-- An include specification that ends in `**`. -/
structure EndsInWildcard where
  spec : String
  deriving DecidableEq, Repr

/-- The text of the error. -/
def EndsInWildcard.message (e : EndsInWildcard) : String :=
  "File specification cannot end in a recursive directory wildcard ('**'): '" ++ e.spec ++ "'."

/-- The specification with everything below it, where its last component looks like a
directory: it has neither a wildcard nor a dot. -/
def expand (spec : String) : Except EndsInWildcard String :=
  let last := (Text.splitOnChar '/' spec.toList).getLast?.getD []
  if last = anyDirsName then .error ⟨spec⟩
  else if !hasWildcardChars last && !last.contains '.' then
    let base := (spec.toList.reverse.dropWhile (· = '/')).reverse
    .ok (String.ofList (base ++ "/**/*".toList))
  else .ok spec

/-- The components of the directory that a specification leads to without wildcards. -/
def baseParts (components : List (List Char)) : List (List Char) :=
  let fixed := components.takeWhile (!hasWildcardChars ·)
  if fixed.length = components.length then fixed.dropLast else fixed

/-- **The base** of a specification: the directory below which everything lies that it can
match. -/
def base (spec : String) : String :=
  match Text.joinWith '/' (baseParts (Text.splitOnChar '/' spec.toList)) with
  | [] => "/"
  | cs => String.ofList cs

end FileSpec

end TsProject

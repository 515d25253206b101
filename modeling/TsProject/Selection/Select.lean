import TsProject.Selection.Extension
import TsProject.Selection.Walk

/-!
# Selecting input files

The files of a configuration are those it names, in order, and after them those found by its
include specifications: each walked file that has an allowed extension and is not excluded
belongs to the first specification that takes it, and the files of one specification come in
walking order. A found file that is also named, or that another one shadows, is left out.
-/

namespace TsProject

/-- Why no files can be selected. -/
inductive SelectError where
  | badSpec (error : FileSpec.EndsInWildcard)
  /-- A directory to walk is no path. -/
  | embeddedNull
  deriving DecidableEq, Repr

/-- The selected files: those named, then those found. -/
structure Selection where
  literal : List String
  found : List String
  deriving DecidableEq, Repr

namespace Selection

/-- All selected files. -/
def files (s : Selection) : List String := s.literal ++ s.found

/-- The place of the first specification that takes a path. -/
def bucket? (specs : List String) (path : String) : Option Nat :=
  specs.findIdx? fun spec => FileSpec.accepts false spec path

/-- The path has one of the extensions. -/
def hasExtension (extensions : List String) (path : String) : Bool :=
  (Extension.of? path).any fun e => extensions.contains e.text

/-- The files found below the roots that may be taken, without repetition. -/
def candidates (w : World) (roots exclude extensions : List String) : List String :=
  ((roots.flatMap w.walk).filter (hasExtension extensions)).eraseDups.filter fun path =>
    !exclude.any fun spec => FileSpec.accepts true spec path

/-- The paths in order of the first specification that takes each; those that none takes are
left out. -/
def inBuckets (specs paths : List String) : List String :=
  (List.range specs.length).flatMap fun i => paths.filter fun path => bucket? specs path = some i

/-- **The files that the include specifications find.** -/
def matchFiles (w : World) (incl exclude extensions : List String) :
    Except SelectError (List String) := do
  let specs ← incl.mapM fun spec => (FileSpec.expand spec).mapError .badSpec
  let roots := FileSpec.walkRoots specs
  if roots.any fun root => root.toList.contains '\x00' then .error .embeddedNull
  else .ok (inBuckets specs (candidates w roots exclude extensions))

/-- **The selection** of a configuration. -/
def select (w : World) (files : Option (List String)) (incl exclude : List String)
    (allowScripts : Bool) : Except SelectError Selection := do
  let extensions := Extension.sources ++ (if allowScripts then Extension.scripts else [])
  let literal := ((files.getD []).map Path.normalize).eraseDups
  let found ← matchFiles w incl exclude extensions
  let fresh := found.filter fun path => !literal.contains path
  return ⟨literal, Extension.dropShadowed literal fresh⟩

end Selection

end TsProject

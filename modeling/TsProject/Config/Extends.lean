import TsProject.Fault
import TsProject.Path

/-!
# Finding files by name

`Config.locate` makes a path that a caller gives absolute: a tilde in front is a home directory,
and a directory stands for the configuration file in it. `Config.findBase` finds the file that a
configuration names as its base: relative to the configuration, or as an installed package in
the nearest `node_modules` directory above it.
-/

namespace TsProject.Config

/-- The name of a configuration file whose directory is given. -/
def defaultName : String := "tsconfig.json"

/-- The home directory that a first component with a tilde stands for. -/
def homeOf (w : World) (component : String) : Except Fault String :=
  let home? :=
    if component = "~" then
      match w.getEnv "HOME" with
      | some home => some home
      | none => w.homes.lookup "root"
    else w.homes.lookup (component.drop 1).toString
  match home? with
  | none => .error (if component.toList.contains '\x00' then .embeddedNull else .noHome)
  | some home =>
    let home := String.ofList (home.toList.reverse.dropWhile (· = '/')).reverse
    if Text.startsWith home "~" then .error .noHome
    else .ok (if home = "" then "/" else home)

/-- The path with its home directory in place of a tilde. -/
def expandHome (w : World) (path : String) : Except Fault String :=
  let path := Path.tidy path
  match Path.solidParts path.toList with
  | first :: rest =>
    if Path.isAbsolute path || first.head? ≠ some '~' then .ok path
    else do
      let home ← homeOf w (String.ofList first)
      return Path.tidy (Path.join home (String.ofList (Text.joinWith '/' rest)))
  | [] => .ok path

/-- **Locating** the configuration file that a caller means. -/
def locate (w : World) (path : String) : Except Fault String := do
  let path ← expandHome w path
  let path := if Path.isAbsolute path then path else Path.child w.cwdText path
  let isDir ← (w.isDir path).mapError Fault.os
  return Path.normalize (if isDir then Path.child path defaultName else path)

/-- The name says where to look by itself. -/
def isPlainPath (spec : String) : Bool :=
  ["./", "../", ".\\", "..\\"].any (Text.startsWith spec) || Path.isAbsolute spec

/-- **Where to look** for a base, in order. -/
def baseCandidates (spec baseDir : String) : List String :=
  let named := Text.endsWith spec ".json"
  if isPlainPath spec then
    let target := Path.child baseDir spec
    if named then [target] else [target, Path.tidy (target ++ ".json")]
  else
    (baseDir :: Path.ancestors baseDir).flatMap fun dir =>
      let package := Path.child (Path.child dir "node_modules") spec
      if named then [package]
      else [package, Path.tidy (package ++ ".json"), Path.child package defaultName]

/-- The first of some paths that leads to a file. -/
def firstFile? (w : World) : List String → Except Fault (Option String)
  | [] => .ok none
  | path :: rest => do
    if ← (w.isFile path).mapError Fault.os then return some path
    else firstFile? w rest

/-- **Finding a base**: the normal form of the first place that holds a file. -/
def findBase (w : World) (spec baseDir : String) : Except Fault (Option String) := do
  let found ← firstFile? w (baseCandidates spec baseDir)
  return found.map fun path =>
    Path.normalize (if Path.isAbsolute path then path else Path.child w.cwdText path)

end TsProject.Config

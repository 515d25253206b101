import TsProject.Cli.Command
import TsProject.World.Setup

/-!
# The program

Takes a picture of the file tree below the working directory and of the environment, and runs the
command on it. The program starts no processes itself: where the command wants to run the
compiler, it is told that the system refuses.
-/

namespace TsProject.Program

/-- The names that the command looks at in the environment. -/
def envNames : List String :=
  ["HOME", "PATH", "KIST_TSC_COMMAND", "KIST_TSC_SEARCH_NODE_MODULES"]

/-- The world with what lies below a directory. Sources count by their names alone, and what
cannot be read is left out. -/
partial def addTree (w : World) (dir : String) : IO World := do
  try
    (← (← IO.FS.realPath dir).readDir).foldlM (fun w entry => do
      let path := Path.join dir entry.fileName
      try
        match (← entry.path.symlinkMetadata).type with
        | .dir => addTree (w.makeDirs path) path
        | .symlink => return w.place path (.link (← IO.FS.realPath path).toString)
        | .file =>
          let bytes ←
            if (Extension.of? entry.fileName).isSome then pure []
            else do pure (← IO.FS.readBinFile path).toList
          return w.place path (.file bytes false)
        | .other => return w
      catch _ => return w) w
  catch _ => return w

/-- The world with the compilers that may be found outside the tree. -/
def addCompilers (w : World) : IO World := do
  let installed := (Path.ancestors w.cwdText).map Compiler.installedIn
  let known := (Text.splitOn ':' ((w.getEnv "PATH").getD "")).map (Path.join · Compiler.binary)
  (installed ++ known).foldlM (fun (w : World) (path : String) => do
    try
      if ← (← IO.FS.realPath path).pathExists then return w.place path (.file [] true)
      else return w
    catch _ => return w) w

/-- The world that the program sees. -/
def seenWorld : IO World := do
  let cwd := (← IO.currentDir).toString
  let w := World.makeDirs {} cwd
  let w := (w.changeDir cwd).toOption.getD w
  let w ← envNames.foldlM (fun w name => do
    match ← IO.getEnv name with
    | some value => return w.setEnv name value
    | none => return w) w
  addCompilers (← addTree w cwd)

/-- The refusal to start a process. -/
def refuse (start : ProcessStart) : ProcessEnd :=
  .notStarted ⟨.other 38 "Function not implemented", start.args.headD ""⟩

/-- Runs the command, prints what it leaves behind and answers with its exit code. -/
def run (args : List String) : IO UInt32 := do
  let time := toString (← IO.monoMsNow)
  match (Cli.run args refuse time { world := ← seenWorld }).1 with
  | .ok output =>
    IO.print output.stdout
    IO.eprint output.stderr
    return output.exitCode.toUInt32
  | .error fault =>
    IO.eprintln fault.message
    return 1

end TsProject.Program

/-- The program. -/
def main (args : List String) : IO UInt32 := TsProject.Program.run args

import TsProject.Config.Document
import TsProject.Config.Extends
import TsProject.Config.Reading
import TsProject.Options.Check

/-!
# Layers of a configuration

A configuration and the bases it names make up a list of layers, bases first, each with its
paths made absolute against its own directory. `collect` reads them all and gathers every
problem on the way: one base that cannot be used does not hide another. A base that is already
being read is reported as circular and not read again.

It is assumed that files can extend one another in a row as long as there are any: a machine that
allows fewer calls within calls, some hundreds of them, breaks the collection off, which is not
modelled.
-/

namespace TsProject

/-- A problem with a configuration or one of its bases. -/
inductive ConfigProblem where
  /-- A place of a file has the wrong shape. -/
  | shape (path : String) (problem : ShapeProblem)
  | option (problem : OptionProblem)
  /-- A base leads to no file. -/
  | baseNotFound (spec : String)
  /-- The files that extend one another, the last being one of those before it. -/
  | circular (chain : List String)
  | unreadable (failure : ReadFailure)
  deriving DecidableEq, Repr

/-- The text of the problem. -/
def ConfigProblem.message : ConfigProblem → String
  | .shape path p =>
    "Invalid value for '" ++ ".".intercalate p.place ++ "' in '" ++ path ++ "': " ++
      p.expected.message
  | .option p => p.message
  | .baseNotFound spec => "File '" ++ spec ++ "' not found."
  | .circular chain =>
    "Circularity detected while resolving configuration: " ++ " -> ".intercalate chain
  | .unreadable f => f.message

/-- What one configuration file declares. -/
structure Layer where
  path : String
  options : Fields
  files : Option (List String)
  incl : Option (List String)
  excl : Option (List String)

namespace Layer

/-- Specifications made absolute against a directory. -/
def absolute (baseDir : String) (specs : Option (List String)) : Option (List String) :=
  specs.map fun ss => ss.map (Path.resolve baseDir)

/-- The layer of a document. -/
def ofDocument (doc : Document) (path : String) : Except (List OptionProblem) Layer :=
  let baseDir := Path.parent path
  (CompilerOptions.load (some baseDir) (doc.compilerOptions.getD [])).map fun options =>
    { path, options
      files := absolute baseDir doc.files
      incl := absolute baseDir doc.incl
      excl := absolute baseDir doc.excl }

end Layer

/-- Layers, bases first, and the problems met on the way. -/
structure Collected where
  layers : List Layer := []
  problems : List ConfigProblem := []

namespace Collected

/-- One collection after another. -/
def append (a b : Collected) : Collected := ⟨a.layers ++ b.layers, a.problems ++ b.problems⟩

instance : Append Collected := ⟨append⟩

/-- A problem and no layer. -/
def problem (p : ConfigProblem) : Collected := ⟨[], [p]⟩

end Collected

namespace Config

/-- What the own part of a document adds. -/
def ownLayer (doc : Document) (path : String) : Collected :=
  match Layer.ofDocument doc path with
  | .ok layer => ⟨[layer], []⟩
  | .error ps => ⟨[], ps.map .option⟩

/-- What one base adds; `descend` collects a base that has been read. `chain` holds the files
being read, the outermost first. -/
def collectBase (w : World)
    (descend : String → Fields → List String → Except Fault Collected)
    (baseDir : String) (chain : List String) (spec : String) : Except Fault Collected := do
  match ← findBase w spec baseDir with
  | none => return .problem (.baseNotFound spec)
  | some target =>
    if chain.contains target then return .problem (.circular (chain ++ [target]))
    else
      match ← readFile w target with
      | .error failure => return .problem (.unreadable failure)
      | .ok fields => descend target fields (chain ++ [target])

/-- What some bases add, one after the other. -/
def collectBases (collectOne : String → Except Fault Collected) :
    List String → Except Fault Collected
  | [] => .ok {}
  | spec :: rest => do
    let first ← collectOne spec
    let others ← collectBases collectOne rest
    return first ++ others

/-- Collects a file that has been read, going down at most `fuel` files. -/
def collectFrom (w : World) : (fuel : Nat) → (path : String) → Fields → (chain : List String) →
    Except Fault Collected
  | 0, _, _, _ => .ok {}
  | fuel + 1, path, fields, chain =>
    match Document.ofFields fields with
    | .error ps => .ok ⟨[], ps.map (.shape path)⟩
    | .ok doc => do
      let bases ← collectBases
        (collectBase w (collectFrom w fuel) (Path.parent path) chain) (doc.bases.getD [])
      return bases ++ ownLayer doc path

/-- A bound on the files that can extend one another in a row: they are different paths, each
made of names of the tree and no longer than a way through it. -/
def maxChain (w : World) : Nat :=
  2 * Nat.pow (w.nodes.length + 2) ((maxLinks + 1) * (w.depth + 2) + 1)

/-- **The layers** of a configuration file that has been read. -/
def collect (w : World) (path : String) (fields : Fields) : Except Fault Collected :=
  collectFrom w (maxChain w) path fields [path]

end Config

end TsProject

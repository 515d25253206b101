import TsProject.Text.Split

/-!
# Extensions and shadowing

The supported extensions fall into three families, and within a family a source comes before a
declaration and a declaration before a script. Of files that differ only by extensions of one
family, those of worse rank are shadowed.
-/

namespace TsProject

/-- The families of extensions. -/
inductive ExtensionFamily where
  | plain
  | common
  | module
  deriving DecidableEq, Repr

/-- A supported extension. -/
structure Extension where
  text : String
  family : ExtensionFamily
  /-- The smaller rank shadows the greater. -/
  rank : Nat
  deriving DecidableEq, Repr

namespace Extension

/-- The supported extensions, longer ones first. -/
def all : List Extension := [
  ⟨".d.cts", .common, 1⟩, ⟨".d.mts", .module, 1⟩, ⟨".d.ts", .plain, 1⟩,
  ⟨".tsx", .plain, 0⟩, ⟨".jsx", .plain, 2⟩, ⟨".cts", .common, 0⟩, ⟨".cjs", .common, 2⟩,
  ⟨".mts", .module, 0⟩, ⟨".mjs", .module, 2⟩, ⟨".ts", .plain, 0⟩, ⟨".js", .plain, 2⟩]

/-- The extensions of sources and declarations. -/
def sources : List String := [".d.ts", ".d.mts", ".d.cts", ".ts", ".tsx", ".mts", ".cts"]

/-- The extensions of scripts. -/
def scripts : List String := [".js", ".jsx", ".mjs", ".cjs"]

/-- The supported extension of a path: the longest one it ends with. -/
def of? (path : String) : Option Extension := all.find? fun e => Text.endsWith path e.text

/-- The path without its extension. -/
def stem (e : Extension) (path : String) : List Char :=
  path.toList.take (path.length - e.text.length)

/-- `p` and `q` differ only by extensions of one family, and that of `p` has the better rank. -/
def shadows (p q : String) : Bool :=
  match of? p, of? q with
  | some e, some f => e.stem p == f.stem q && e.family == f.family && e.rank < f.rank
  | _, _ => false

/-- **Unshadowed** paths of `wildcard`: those that no path of either list shadows. -/
def dropShadowed (literal wildcard : List String) : List String :=
  wildcard.filter fun q => !(literal ++ wildcard).any fun p => shadows p q

end Extension

end TsProject

import TsProject.Options.Check

/-!
# Merging options

The options of a run come from three tiers, the later ones winning key by key: the
configuration, the overrides of the caller, and the output location, which sets the output
directory. Values are replaced as a whole. Overrides are checked like the options of a
configuration; if any is rejected, none is used.

The maps of options are shared by those who hold a reference to them. `mergeIn` merges in the
memory that they are kept in: it copies the options of the configuration and changes the copy.
-/

namespace TsProject

/-- Overrides that are rejected: the first offending key, and a text for each problem. -/
structure OverrideError where
  key : String
  problems : List OptionProblem
  deriving DecidableEq, Repr

/-- The text of the error. -/
def OverrideError.message (e : OverrideError) : String :=
  "\n".intercalate (e.problems.map OptionProblem.message)

namespace CompilerOptions

/-- The option that the output location sets. -/
def outputDirKey : String := "outDir"

/-- **Overrides** checked, with their paths made absolute against `base?` where it is given. -/
def convertOverrides (overrides : Fields) (base? : Option String) :
    Except OverrideError Fields :=
  (load base? overrides).mapError fun problems =>
    ⟨(problems.head?.map (·.key)).getD "", problems⟩

/-- The options with the output location on top, unless it is missing or empty. -/
def putOutput (options : Fields) (output : Option String) : Fields :=
  match output with
  | some location => if location = "" then options else options.set outputDirKey (.str location)
  | none => options

/-- **Merging** the options of a configuration with overrides and an output location. -/
def merge (base overrides : Fields) (output base? : Option String) :
    Except OverrideError Fields :=
  (convertOverrides overrides base?).map fun converted =>
    putOutput (base.update converted) output

end CompilerOptions

/-- **The maps of options** in memory; a reference to one of them is its number. -/
structure OptionStore where
  maps : List Fields := []

namespace OptionStore

/-- The map that a reference is to. -/
def read? (s : OptionStore) (ref : Nat) : Option Fields := s.maps[ref]?

/-- A further map. -/
def add (s : OptionStore) (options : Fields) : OptionStore := ⟨s.maps ++ [options]⟩

/-- **Changing a map** in place, which everyone sees who holds a reference to it. -/
def change (s : OptionStore) (ref : Nat) (f : Fields → Fields) : OptionStore :=
  ⟨s.maps.modify ref f⟩

end OptionStore

namespace CompilerOptions

/-- **Merging in memory**: the options of a reference are copied, and overrides and output
location are put into the copy. The answer is a reference to it. -/
def mergeIn (base : Nat) (overrides : Fields) (output base? : Option String) :
    ExceptT OverrideError (StateM OptionStore) Nat := do
  let merged := (← getThe OptionStore).maps.length
  modify fun s => s.add ((s.read? base).getD [])
  let converted ← convertOverrides overrides base?
  modify fun s => s.change merged (·.update converted)
  modify fun s => s.change merged (putOutput · output)
  return merged

end CompilerOptions

end TsProject

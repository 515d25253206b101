import TsProject.Options.Schema
import TsProject.Text.Lower
import TsProject.Text.Similarity

/-!
# Suggestions for misspelt options

An unknown key that differs from an option only in case suggests that option; otherwise the most
similar option is suggested, if three quarters of the characters agree.
-/

namespace TsProject.OptionSpec

/-- How similar a suggestion has to be. -/
def suggestionCutoff : Text.Similarity.Ratio := ⟨3, 4⟩

/-- The option that a key was probably meant to be. -/
def suggest? (key : String) : Option String :=
  let lowered := Text.lower key
  match names.find? (fun name => Text.lower name = lowered) with
  | some name => some name
  | none => Text.Similarity.closest? suggestionCutoff key names

end TsProject.OptionSpec

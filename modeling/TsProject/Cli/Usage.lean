import TsProject.Cli.Arguments
import TsProject.Json.Printer

/-!
# Usage texts

The texts about the command line itself: help, version, and what is wrong with the arguments.
-/

namespace TsProject.Cli

/-- The name of the program. -/
def programName : String := "kist-tsc"

/-- The line of the version. -/
def versionText : String := programName ++ " 1.0.0"

/-- The lines of the help. -/
def helpLines : List String := [
  "Usage: kist-tsc [OPTIONS]",
  "",
  "  Compile a TypeScript project using a tsconfig.json configuration.",
  "",
  "Options:",
  "  --version                       Show the version and exit.",
  "  -p, --project PATH              Path to tsconfig.json (or the directory",
  "                                  containing it).  [default: tsconfig.json]",
  "  -f, --file PATH                 Input file; replaces the configured file",
  "                                  list. Repeatable.",
  "  -o, --out-dir PATH              Output directory; overrides outDir from any",
  "                                  source.",
  "  -O, --option KEY=VALUE          Compiler option override as KEY=VALUE.",
  "                                  Repeatable.",
  "  --tsc COMMAND                   Command used to run the compiler (e.g. 'npx",
  "                                  --no-install tsc').",
  "  --log-level [debug|info|warning|error]",
  "                                  Level for internal structured logs.",
  "                                  [default: WARNING]",
  "  --json-logs                     Render internal logs as JSON lines.",
  "  -h, --help                      Show this message and exit.",
  "",
  "  Examples:     $ kist-tsc --project app/tsconfig.json --out-dir ./out     $",
  "  kist-tsc -p tsconfig.json -f src/index.ts -O strict=true -O target=ES2022"]

/-- What stands above an error about the use of the program. -/
def usageLines : List String := [
  "Usage: kist-tsc [OPTIONS]",
  "Try 'kist-tsc --help' for help.",
  ""]

/-- The suggestion of other options. -/
def suggestionText : List String → String
  | [] => ""
  | [name] => " Did you mean " ++ Text.quoted name ++ "?"
  | names =>
    " (Possible options: " ++
      ", ".intercalate ((names.mergeSort (· ≤ ·)).map Text.quoted) ++ ")"

namespace UsageError

/-- The text of the error. -/
def message : UsageError → String
  | .noSuchOption name possible =>
    "No such option " ++ Text.quoted name ++ "." ++ suggestionText possible
  | .takesNoValue name => "Option " ++ Text.quoted name ++ " does not take a value."
  | .needsValue name => "Option " ++ Text.quoted name ++ " requires an argument."
  | .badAssignment text =>
    "Invalid value for '--option' / '-O': " ++ badAssignmentText text
  | .badLevel value =>
    "Invalid value for '--log-level': " ++ Text.quoted value ++ " is not one of " ++
      ", ".intercalate (levelNames.map fun name => Text.quoted (foldText name)) ++ "."
  | .unexpected args =>
    "Got unexpected extra argument" ++ (if args.length = 1 then "" else "s") ++ " (" ++
      " ".intercalate args ++ ")"

/-- The error is told without the usage above it. -/
def isBare : UsageError → Bool
  | .takesNoValue _ | .needsValue _ => true
  | _ => false

/-- **The lines of the error.** -/
def lines (e : UsageError) : List String :=
  (if e.isBare then [] else usageLines) ++ ["Error: " ++ e.message]

end UsageError

/-- An error told to the user, with what it is about. -/
def errorText (message : String) (context : Fields) : String :=
  let details := context.filterMap fun (key, v) =>
    match v with
    | .null => none
    | .str s => some (key ++ "=" ++ s)
    | v => some (key ++ "=" ++ v.literal)
  if details.isEmpty then "Error: " ++ message
  else "Error: " ++ message ++ " (" ++ ", ".intercalate details ++ ")"

end TsProject.Cli

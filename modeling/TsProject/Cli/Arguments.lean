import TsProject.Config.Extends
import TsProject.Json.Parser
import TsProject.Text.Blank
import TsProject.Text.Similarity

/-!
# Command-line arguments

Arguments are options, in a long spelling or as one of a cluster of letters, and nothing else is
expected. An option that takes a value takes the rest of its own argument or the next argument,
whatever that looks like. Two dashes end the options.

First all arguments are read, then the options are settled: those that end the program at once,
then the others in the order in which they were first given.
-/

namespace TsProject.Cli

/-- The options of the command line. -/
inductive Switch where
  | version
  | project
  | file
  | outDir
  | option
  | tsc
  | logLevel
  | jsonLogs
  | help
  deriving DecidableEq, Repr

namespace Switch

/-- All options, in the order in which they are listed. -/
def all : List Switch :=
  [.version, .project, .file, .outDir, .option, .tsc, .logLevel, .jsonLogs, .help]

/-- The long spelling. -/
def long : Switch → String
  | .version => "--version"
  | .project => "--project"
  | .file => "--file"
  | .outDir => "--out-dir"
  | .option => "--option"
  | .tsc => "--tsc"
  | .logLevel => "--log-level"
  | .jsonLogs => "--json-logs"
  | .help => "--help"

/-- The letter. -/
def letter? : Switch → Option Char
  | .project => some 'p'
  | .file => some 'f'
  | .outDir => some 'o'
  | .option => some 'O'
  | .help => some 'h'
  | _ => none

/-- The option takes a value. -/
def takesValue : Switch → Bool
  | .version | .jsonLogs | .help => false
  | _ => true

/-- The option ends the program. -/
def isEager : Switch → Bool
  | .version | .help => true
  | _ => false

end Switch

/-- What is wrong with the arguments. -/
inductive UsageError where
  | noSuchOption (name : String) (possible : List String)
  | takesNoValue (name : String)
  | needsValue (name : String)
  | badAssignment (text : String)
  | badLevel (value : String)
  | unexpected (args : List String)
  deriving DecidableEq, Repr

/-- An option that was given, with its value. -/
structure Given where
  switch : Switch
  value : String := ""
  deriving DecidableEq, Repr

/-- What one argument amounts to: options, and perhaps one whose value is the next argument,
with the spelling it has. -/
structure ArgReading where
  given : List Given := []
  wanting : Option (Switch × String) := none

/-- How similar a suggested option is at least. -/
def suggestionCutoff : Text.Similarity.Ratio := ⟨3, 5⟩

/-- An argument up to its first equals sign, and what stands after it. -/
def cutAssignment (cs : List Char) : List Char × Option (List Char) :=
  let name := cs.takeWhile (· ≠ '=')
  match cs.drop name.length with
  | _ :: value => (name, some value)
  | [] => (name, none)

/-- Reads an option in its long spelling, if there is one of that name. -/
def readLong (cs : List Char) : Option (Except UsageError ArgReading) :=
  let (name, value) := cutAssignment cs
  let name := String.ofList name
  (Switch.all.find? (·.long = name)).map fun switch =>
    match switch.takesValue, value with
    | true, some value => .ok { given := [⟨switch, String.ofList value⟩] }
    | true, none => .ok { wanting := some (switch, name) }
    | false, some _ => .error (.takesNoValue name)
    | false, none => .ok { given := [⟨switch, ""⟩] }

/-- Reads a cluster of letters. -/
def readCluster : List Char → Except UsageError ArgReading
  | [] => .ok {}
  | c :: rest =>
    let name := String.ofList ['-', c]
    match Switch.all.find? (·.letter? = some c) with
    | none => .error (.noSuchOption name [])
    | some switch =>
      if switch.takesValue then
        if rest.isEmpty then .ok { wanting := some (switch, name) }
        else .ok { given := [⟨switch, String.ofList rest⟩] }
      else (readCluster rest).map fun r => { r with given := ⟨switch, ""⟩ :: r.given }

/-- Reads one argument that begins with a dash. -/
def readOption (cs : List Char) : Except UsageError ArgReading :=
  match readLong cs with
  | some result => result
  | none =>
    match cs with
    | '-' :: '-' :: _ =>
      let name := String.ofList (cutAssignment cs).1
      .error (.noSuchOption name (Text.Similarity.closeMatches 3 suggestionCutoff name
        (Switch.all.map Switch.long)))
    | _ => readCluster (cs.drop 1)

/-- Options and other arguments. -/
structure ArgList where
  given : List Given := []
  extra : List String := []

/-- More options in front. -/
def ArgList.prepend (given : List Given) (args : ArgList) : ArgList :=
  { args with given := given ++ args.given }

/-- **Reading the arguments.** -/
def readArgs : List String → Except UsageError ArgList
  | [] => .ok {}
  | arg :: rest =>
    if arg = "--" then .ok { extra := rest }
    else if arg.toList.head? = some '-' && arg ≠ "-" then
      match readOption arg.toList with
      | .error e => .error e
      | .ok reading =>
        match reading.wanting, rest with
        | none, rest => (readArgs rest).map (·.prepend reading.given)
        | some (_, name), [] => .error (.needsValue name)
        | some (switch, _), value :: rest =>
          (readArgs rest).map (·.prepend (reading.given ++ [⟨switch, value⟩]))
    else (readArgs rest).map fun args => { args with extra := arg :: args.extra }

/-- What the command line asks for. -/
structure Arguments where
  project : String := Config.defaultName
  files : List String := []
  outDir : Option String := none
  overrides : Fields := []
  tsc : Option String := none
  logLevel : String := "WARNING"
  jsonLogs : Bool := false

/-- What the program is to do. -/
inductive Request where
  | version
  | help
  | compile (args : Arguments)

/-- What keeps the arguments from being settled. -/
inductive ArgError where
  | usage (error : UsageError)
  /-- A whole number in an override has more digits than are read. -/
  | tooManyDigits (digits : Nat)
  deriving DecidableEq, Repr

/-- The text for an override that is not an assignment. -/
def badAssignmentText (assignment : String) : String :=
  "expected KEY=VALUE, got '" ++ assignment ++ "'"

/-- Reads one override: a key and, after an equals sign, a value of the data format, or else a
text. -/
def readAssignment (assignment : String) : Except ArgError (String × Json) :=
  let (key, value) := cutAssignment assignment.toList
  let key := Text.trimChars key
  match value with
  | none => .error (.usage (.badAssignment assignment))
  | some value =>
    if key.isEmpty then .error (.usage (.badAssignment assignment))
    else
      match Json.readChars value with
      | .ok v => .ok (String.ofList key, v)
      | .error (.badSyntax _) => .ok (String.ofList key, .str (String.ofList value))
      | .error (.tooManyDigits n) => .error (.tooManyDigits n)

/-- **Overrides** of the command line, later ones in place of earlier ones. -/
def readAssignments : Fields → List String → Except ArgError Fields
  | fields, [] => .ok fields
  | fields, assignment :: rest => do
    let (key, value) ← readAssignment assignment
    readAssignments (fields.set key value) rest

/-- The names of the log levels. -/
def levelNames : List String := ["DEBUG", "INFO", "WARNING", "ERROR"]

/-- A character as names are compared without regard to case. -/
def foldChar (c : Char) : List Char :=
  if c = 'ſ' then ['s']
  else if c = '\u212a' then ['k']
  else if c = 'ﬁ' then ['f', 'i']
  else if c = 'ﬂ' then ['f', 'l']
  else if c = 'ﬀ' then ['f', 'f']
  else if c = 'ﬃ' then ['f', 'f', 'i']
  else if c = 'ﬄ' then ['f', 'f', 'l']
  else if c = 'ﬅ' || c = 'ﬆ' then ['s', 't']
  else if c = 'ß' then ['s', 's']
  else [c.toLower]

/-- A text as names are compared without regard to case. -/
def foldText (s : String) : String := String.ofList (s.toList.flatMap foldChar)

/-- The log level of a name in any case. -/
def readLevel (value : String) : Except ArgError String :=
  match levelNames.find? fun name => foldText name = foldText value with
  | some name => .ok name
  | none => .error (.usage (.badLevel value))

/-- The values given for an option, in order. -/
def valuesOf (given : List Given) (switch : Switch) : List String :=
  (given.filter (·.switch = switch)).map (·.value)

/-- Settles an option that was given. -/
def settle (given : List Given) (args : Arguments) (switch : Switch) :
    Except ArgError Arguments :=
  let values := valuesOf given switch
  let last := values.getLast?.getD ""
  match switch with
  | .project => .ok { args with project := last }
  | .file => .ok { args with files := values }
  | .outDir => .ok { args with outDir := some last }
  | .option => (readAssignments [] values).map fun overrides => { args with overrides }
  | .tsc => .ok { args with tsc := some last }
  | .logLevel => (readLevel last).map fun logLevel => { args with logLevel }
  | .jsonLogs => .ok { args with jsonLogs := true }
  | .version | .help => .ok args

/-- The options that were given, each once, in the order in which they were first given. -/
def givenOrder (given : List Given) : List Switch := (given.map (·.switch)).eraseDups

/-- **What the command line asks for.** -/
def parse (argv : List String) : Except ArgError Request := do
  let read ← (readArgs argv).mapError .usage
  let order := givenOrder read.given
  match order.find? Switch.isEager with
  | some .version => return .version
  | some _ => return .help
  | none =>
    let args ← order.foldlM (settle read.given) {}
    if read.extra.isEmpty then return .compile args
    else throw (.usage (.unexpected read.extra))

end TsProject.Cli

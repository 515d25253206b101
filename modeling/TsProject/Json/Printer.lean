import TsProject.Json.Basic
import TsProject.Text.Quoted

/-!
# Writing data values

Two notations are written. `Json.render` is the data format itself on one line, with a blank
after each comma and colon and every character outside the printable ASCII range escaped.
`Json.literal` is the notation of log lines, with quoted literals for texts and words for null
and the truth values.
-/

namespace TsProject.Json

/-- An escape by the number of a unit. -/
def unitEscape (n : Nat) : List Char := '\\' :: 'u' :: Text.hexDigits 4 n

/-- How a character of a string is written. -/
def escapedChar (c : Char) : List Char :=
  if c = '"' || c = '\\' then ['\\', c]
  else if c = '\n' then ['\\', 'n']
  else if c = '\r' then ['\\', 'r']
  else if c = '\t' then ['\\', 't']
  else if c = '\x0c' then ['\\', 'f']
  else if c = '\x08' then ['\\', 'b']
  else if ' ' ≤ c && c ≤ '~' then [c]
  else if c.toNat < 0x10000 then unitEscape c.toNat
  else
    let n := c.toNat - 0x10000
    unitEscape (0xd800 + n / 1024) ++ unitEscape (0xdc00 + n % 1024)

/-- A string of the data format. -/
def renderString (s : String) : String :=
  String.ofList ('"' :: s.toList.flatMap escapedChar ++ ['"'])

/-- A floating-point number of the data format. -/
def renderReal : Binary64 → String
  | .nan => "NaN"
  | .infinite negative => if negative then "-Infinity" else "Infinity"
  | x => x.text

mutual

/-- The value on one line of the data format. -/
def render : Json → String
  | .null => "null"
  | .bool b => if b then "true" else "false"
  | .int n => toString n
  | .real x => renderReal x
  | .str s => renderString s
  | .arr items => "[" ++ ", ".intercalate (renderItems items) ++ "]"
  | .obj members => "\x7b" ++ ", ".intercalate (renderMembers members) ++ "\x7d"

/-- The items of a list. -/
def renderItems : List Json → List String
  | [] => []
  | v :: rest => render v :: renderItems rest

/-- The members of an object. -/
def renderMembers : List (String × Json) → List String
  | [] => []
  | (k, v) :: rest => (renderString k ++ ": " ++ render v) :: renderMembers rest

end

mutual

/-- The value over several lines, each level indented by two blanks more than the one around
it; `indent` is the indentation of the line on which the value begins. -/
def renderIndented (indent : Nat) : Json → String
  | .arr [] => "[]"
  | .arr items =>
    "[\n" ++ ",\n".intercalate (indentedItems (indent + 2) items) ++ "\n" ++
      "".pushn ' ' indent ++ "]"
  | .obj [] => "\x7b\x7d"
  | .obj members =>
    "\x7b\n" ++ ",\n".intercalate (indentedMembers (indent + 2) members) ++ "\n" ++
      "".pushn ' ' indent ++ "\x7d"
  | .null => "null"
  | .bool b => if b then "true" else "false"
  | .int n => toString n
  | .real x => renderReal x
  | .str s => renderString s

/-- The items of a list, each on lines of its own. -/
def indentedItems (indent : Nat) : List Json → List String
  | [] => []
  | v :: rest => ("".pushn ' ' indent ++ renderIndented indent v) :: indentedItems indent rest

/-- The members of an object, each on lines of its own. -/
def indentedMembers (indent : Nat) : List (String × Json) → List String
  | [] => []
  | (k, v) :: rest =>
    ("".pushn ' ' indent ++ renderString k ++ ": " ++ renderIndented indent v) ::
      indentedMembers indent rest

end

mutual

/-- The value in the notation of log lines. -/
def literal : Json → String
  | .null => "None"
  | .bool b => if b then "True" else "False"
  | .int n => toString n
  | .real x => x.text
  | .str s => Text.quoted s
  | .arr items => "[" ++ ", ".intercalate (literalItems items) ++ "]"
  | .obj members => "\x7b" ++ ", ".intercalate (literalMembers members) ++ "\x7d"

/-- The items of a list. -/
def literalItems : List Json → List String
  | [] => []
  | v :: rest => literal v :: literalItems rest

/-- The members of an object. -/
def literalMembers : List (String × Json) → List String
  | [] => []
  | (k, v) :: rest => (Text.quoted k ++ ": " ++ literal v) :: literalMembers rest

end

end TsProject.Json

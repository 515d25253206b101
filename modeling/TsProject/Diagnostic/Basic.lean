/-!
# Diagnostics

A diagnostic is what the compiler reports: a category, perhaps a code and a place, and a message
that is either a text or a chain, a tree of texts whose children explain their parent.
`Message.flatten` writes a message as text, each level of a chain indented by two blanks more
than the one above.
-/

namespace TsProject

/-- How severe a diagnostic is. -/
inductive Category where
  | error
  | warning
  | suggestion
  | message
  deriving DecidableEq, Repr

/-- All categories. -/
def Category.all : List Category := [.error, .warning, .suggestion, .message]

/-- The word for a category. -/
def Category.text : Category → String
  | .error => "error"
  | .warning => "warning"
  | .suggestion => "suggestion"
  | .message => "message"

/-- A category by its word. -/
def Category.ofText? (s : String) : Option Category := Category.all.find? (·.text = s)

/-- A text with the texts that explain it. -/
inductive Chain where
  | node (text : String) (next : List Chain)
  deriving Inhabited

namespace Chain

/-- The text at the top. -/
def text : Chain → String
  | .node t _ => t

/-- The explanations of the text at the top. -/
def next : Chain → List Chain
  | .node _ cs => cs

mutual

/-- The texts of a chain in reading order, each with its depth, the top being at `depth`. -/
def preorder (depth : Nat) : Chain → List (Nat × String)
  | .node t cs => (depth, t) :: preorderAll (depth + 1) cs

/-- The texts of some chains in reading order. -/
def preorderAll (depth : Nat) : List Chain → List (Nat × String)
  | [] => []
  | c :: cs => preorder depth c ++ preorderAll depth cs

end

mutual

/-- The text of a chain whose top is indented by `indent` levels; only a top that is not
indented at all starts on the current line. -/
def flatten (newLine : String) (indent : Int) : Chain → String
  | .node t cs =>
    (if indent = 0 then "" else newLine ++ "".pushn ' ' (2 * indent.toNat)) ++ t ++
      flattenAll newLine (indent + 1) cs

/-- The text of some chains, one after the other. -/
def flattenAll (newLine : String) (indent : Int) : List Chain → String
  | [] => ""
  | c :: cs => flatten newLine indent c ++ flattenAll newLine indent cs

end

/-- A list with its last item changed. -/
def modifyLast (f : α → α) : List α → List α
  | [] => []
  | [x] => [f x]
  | x :: y :: rest => x :: modifyLast f (y :: rest)

/-- The chain with a text put behind everything else, `depth` levels below the children of the
top. -/
def insert (text : String) : (depth : Nat) → Chain → Chain
  | 0, .node t cs => .node t (cs ++ [.node text []])
  | depth + 1, .node t cs => .node t (modifyLast (insert text depth) cs)

/-- The chain that lines indented by the given depths add up to below `head`. A line lies at
least one level below the head and at most one level below the line before it. -/
def ofLines (head : String) (lines : List (Nat × String)) : Chain :=
  (lines.foldl (fun (chain, level) (depth, text) =>
    let level := max 1 (min depth (level + 1))
    (chain.insert text (level - 1), level)) (.node head [], 0)).1

end Chain

/-- What a diagnostic says. -/
inductive Message where
  | plain (text : String)
  | chain (chain : Chain)
  deriving Inhabited

/-- **The message as text.** -/
def Message.flatten (newLine : String) (indent : Int) : Message → String
  | .plain text => text
  | .chain c => c.flatten newLine indent

/-- What the compiler reports. -/
structure Diagnostic where
  category : Category := .error
  code : Option Int := none
  message : Message
  file : Option String := none
  line : Option Int := none
  column : Option Int := none

end TsProject

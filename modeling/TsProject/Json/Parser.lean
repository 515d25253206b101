import TsProject.Json.Token

/-!
# Reading data values

Tokens are read one after the other by a machine whose state says what may come next and keeps
the lists and objects that are still open. Each step either moves on or says what it wanted
instead, so the error of a text is that of its first unacceptable token, and the machine reads
any token list in one pass.
-/

namespace TsProject.Json

/-- A list or object that is still open, with what it holds so far, last first. -/
inductive Frame where
  | list (before : List Json)
  | object (before : Fields) (key : String)

/-- What the machine wants next. -/
inductive State where
  /-- A value. -/
  | value (stack : List Frame)
  /-- A value or the end of a list just opened. -/
  | firstItem (stack : List Frame)
  /-- A key or the end of an object just opened. -/
  | firstKey (stack : List Frame)
  /-- A key. -/
  | key (stack : List Frame) (before : Fields)
  /-- The colon after a key. -/
  | colon (stack : List Frame) (before : Fields) (key : String)
  /-- A comma or the end of a list. -/
  | afterItem (stack : List Frame) (before : List Json)
  /-- A comma or the end of an object. -/
  | afterMember (stack : List Frame) (before : Fields)
  /-- Nothing more. -/
  | done (v : Json)

/-- Why a text is no value. -/
inductive ReadError where
  | badSyntax (error : SyntaxError)
  /-- A whole number has more digits than are read. -/
  | tooManyDigits (digits : Nat)
  deriving DecidableEq, Repr

/-- The state after a complete value. -/
def complete : List Frame → Json → State
  | [], v => .done v
  | .list before :: stack, v => .afterItem stack (v :: before)
  | .object before key :: stack, v => .afterMember stack ((key, v) :: before)

/-- The state after a token at which a value may begin. -/
def beginValue (stack : List Frame) (pos : Nat) : Token → Except ReadError State
  | .openBracket => .ok (.firstItem stack)
  | .openBrace => .ok (.firstKey stack)
  | .str s => .ok (complete stack (.str s))
  | .atom v => .ok (complete stack v)
  | .tooLong digits => .error (.tooManyDigits digits)
  | .broken e => .error (.badSyntax e)
  | _ => .error (.badSyntax ⟨.expectingValue, pos⟩)

/-- The state after a token at which a key may begin. -/
def beginKey (stack : List Frame) (before : Fields) (pos : Nat) : Token → Except ReadError State
  | .str s => .ok (.colon stack before s)
  | .broken e => .error (.badSyntax e)
  | _ => .error (.badSyntax ⟨.expectingPropertyName, pos⟩)

/-- **One step** of the machine. -/
def step : State → Located → Except ReadError State
  | .value stack, ⟨token, pos⟩ => beginValue stack pos token
  | .firstItem stack, ⟨.closeBracket, _⟩ => .ok (complete stack (.arr []))
  | .firstItem stack, ⟨token, pos⟩ => beginValue (.list [] :: stack) pos token
  | .firstKey stack, ⟨.closeBrace, _⟩ => .ok (complete stack (.obj []))
  | .firstKey stack, ⟨token, pos⟩ => beginKey stack [] pos token
  | .key stack before, ⟨token, pos⟩ => beginKey stack before pos token
  | .colon stack before key, ⟨.colon, _⟩ => .ok (.value (.object before key :: stack))
  | .colon _ _ _, ⟨_, pos⟩ => .error (.badSyntax ⟨.expectingColon, pos⟩)
  | .afterItem stack before, ⟨.closeBracket, _⟩ => .ok (complete stack (.arr before.reverse))
  | .afterItem stack before, ⟨.comma, _⟩ => .ok (.value (.list before :: stack))
  | .afterItem _ _, ⟨_, pos⟩ => .error (.badSyntax ⟨.expectingComma, pos⟩)
  | .afterMember stack before, ⟨.closeBrace, _⟩ =>
    .ok (complete stack (.obj (Fields.ofMembers before.reverse)))
  | .afterMember stack before, ⟨.comma, _⟩ => .ok (.key stack before)
  | .afterMember _ _, ⟨_, pos⟩ => .error (.badSyntax ⟨.expectingComma, pos⟩)
  | .done _, ⟨_, pos⟩ => .error (.badSyntax ⟨.extraData, pos⟩)

/-- The value of a machine that has read everything, `stop` being the length of the text. -/
def finish (stop : Nat) : State → Except ReadError Json
  | .value _ | .firstItem _ => .error (.badSyntax ⟨.expectingValue, stop⟩)
  | .firstKey _ | .key _ _ => .error (.badSyntax ⟨.expectingPropertyName, stop⟩)
  | .colon _ _ _ => .error (.badSyntax ⟨.expectingColon, stop⟩)
  | .afterItem _ _ | .afterMember _ _ => .error (.badSyntax ⟨.expectingComma, stop⟩)
  | .done v => .ok v

/-- Reads all tokens from a state on. -/
def run : State → List Located → Except ReadError State
  | state, [] => .ok state
  | state, t :: rest => do run (← step state t) rest

/-- **Reading**: the value that the characters write. -/
def readChars (cs : List Char) : Except ReadError Json := do
  finish cs.length (← run (.value []) (tokens cs))

/-- The value that a text writes. -/
def read (s : String) : Except ReadError Json := readChars s.toList

/-- The line and the column of a position, both counted from one. -/
def lineAndColumn (cs : List Char) (position : Nat) : Nat × Nat :=
  let before := cs.take position
  (before.count '\n' + 1, (before.reverse.takeWhile (· ≠ '\n')).length + 1)

end TsProject.Json

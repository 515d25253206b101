import TsProject.Json.Basic
import TsProject.Text.Split

/-!
# Tokens of the data format

A text is first cut into tokens, each with the position of its first character. What cannot
begin a token is a token of its own, `junk`, so that cutting never fails: whether a token is
acceptable is for the reader of the token list to say. A string that is not well formed becomes a
`broken` token, which carries the error that a reader reports when it wants a string there;
nothing after it is cut.

Texts consist of characters, and half of a surrogate pair is none. An escape that writes such a
half without the other one stands for the replacement character here, although readers exist that
keep the half as it is: what is said about the contents of strings holds for texts without such
escapes.
-/

namespace TsProject.Json

/-- What is wrong at a place of a text. -/
inductive SyntaxErrorKind where
  | expectingValue
  | expectingPropertyName
  | expectingColon
  | expectingComma
  | extraData
  | unterminatedString
  | controlCharacter
  | badEscape
  | badUnicodeEscape
  deriving DecidableEq, Repr

/-- The text of the error. -/
def SyntaxErrorKind.message : SyntaxErrorKind → String
  | .expectingValue => "Expecting value"
  | .expectingPropertyName => "Expecting property name enclosed in double quotes"
  | .expectingColon => "Expecting ':' delimiter"
  | .expectingComma => "Expecting ',' delimiter"
  | .extraData => "Extra data"
  | .unterminatedString => "Unterminated string starting at"
  | .controlCharacter => "Invalid control character at"
  | .badEscape => "Invalid \\escape"
  | .badUnicodeEscape => "Invalid \\uXXXX escape"

/-- An error and its position, counted in characters from zero. -/
structure SyntaxError where
  kind : SyntaxErrorKind
  position : Nat
  deriving DecidableEq, Repr

/-- The longest decimal text of a whole number that is read. -/
def maxDigits : Nat := 4300

/-- A token. -/
inductive Token where
  | openBrace
  | closeBrace
  | openBracket
  | closeBracket
  | colon
  | comma
  /-- A well-formed string. -/
  | str (s : String)
  /-- Null, a truth value or a number. -/
  | atom (v : Json)
  /-- A whole number of more digits than are read. -/
  | tooLong (digits : Nat)
  /-- A string that is not well formed. -/
  | broken (error : SyntaxError)
  /-- A character that begins no token. -/
  | junk

/-- The value of a digit of base sixteen. -/
def hexValue? (c : Char) : Option Nat :=
  if '0' ≤ c && c ≤ '9' then some (c.toNat - 48)
  else if 'a' ≤ c && c ≤ 'f' then some (c.toNat - 87)
  else if 'A' ≤ c && c ≤ 'F' then some (c.toNat - 55)
  else none

/-- The number written by four digits of base sixteen. -/
def hexWord? (a b c d : Char) : Option Nat := do
  let a ← hexValue? a
  let b ← hexValue? b
  let c ← hexValue? c
  let d ← hexValue? d
  return ((a * 16 + b) * 16 + c) * 16 + d

/-- The unit begins a pair. -/
def isHighUnit (n : Nat) : Bool := 0xd800 ≤ n && n < 0xdc00

/-- The unit ends a pair. -/
def isLowUnit (n : Nat) : Bool := 0xdc00 ≤ n && n < 0xe000

/-- The character of a unit that stands alone; half of a pair is replaced. -/
def unitChar (n : Nat) : Char :=
  if 0xd800 ≤ n && n < 0xe000 then '\ufffd' else Char.ofNat n

/-- What a one-letter escape stands for. -/
def escapeChar? (c : Char) : Option Char :=
  if c = '"' || c = '\\' || c = '/' then some c
  else if c = 'b' then some '\x08'
  else if c = 'f' then some '\x0c'
  else if c = 'n' then some '\n'
  else if c = 'r' then some '\r'
  else if c = 't' then some '\t'
  else none

/-- Reads on in a string that began at `start`, from the position `pos`: its characters and the
position after its closing quote. -/
def readString (start : Nat) : (pos : Nat) → List Char → Except SyntaxError (List Char × Nat)
  | _, [] => .error ⟨.unterminatedString, start⟩
  | pos, '"' :: _ => .ok ([], pos + 1)
  | _, ['\\'] => .error ⟨.unterminatedString, start⟩
  | pos, '\\' :: 'u' :: a :: b :: c :: d :: '\\' :: 'u' :: e :: f :: g :: h :: after :: rest =>
    match hexWord? a b c d with
    | none => .error ⟨.badUnicodeEscape, pos + 1⟩
    | some high =>
      if isHighUnit high then
        match hexWord? e f g h with
        | none => .error ⟨.badUnicodeEscape, pos + 7⟩
        | some low =>
          if isLowUnit low then
            (readString start (pos + 12) (after :: rest)).map fun (cs, stop) =>
              (Char.ofNat (0x10000 + (high - 0xd800) * 1024 + (low - 0xdc00)) :: cs, stop)
          else
            (readString start (pos + 6) ('\\' :: 'u' :: e :: f :: g :: h :: after :: rest)).map
              fun (cs, stop) => (unitChar high :: cs, stop)
      else
        (readString start (pos + 6) ('\\' :: 'u' :: e :: f :: g :: h :: after :: rest)).map
          fun (cs, stop) => (unitChar high :: cs, stop)
  | pos, '\\' :: 'u' :: a :: b :: c :: d :: after :: rest =>
    match hexWord? a b c d with
    | none => .error ⟨.badUnicodeEscape, pos + 1⟩
    | some n => (readString start (pos + 6) (after :: rest)).map fun (cs, stop) =>
        (unitChar n :: cs, stop)
  | pos, '\\' :: 'u' :: _ => .error ⟨.badUnicodeEscape, pos + 1⟩
  | pos, '\\' :: c :: rest =>
    match escapeChar? c with
    | none => .error ⟨.badEscape, pos⟩
    | some e => (readString start (pos + 2) rest).map fun (cs, stop) => (e :: cs, stop)
  | pos, c :: rest =>
    if c.toNat < 0x20 then .error ⟨.controlCharacter, pos⟩
    else (readString start (pos + 1) rest).map fun (cs, stop) => (c :: cs, stop)

/-- A digit of a number. -/
def isDigit (c : Char) : Bool := '0' ≤ c && c ≤ '9'

/-- The number that digits write. -/
def natOfDigits (cs : List Char) : Nat := cs.foldl (fun n c => 10 * n + (c.toNat - 48)) 0

/-- The digits of the whole part at the start of a text: a lone zero, or digits that do not
begin with one. -/
def wholePart (cs : List Char) : List Char :=
  match cs with
  | '0' :: _ => ['0']
  | _ => cs.takeWhile isDigit

/-- The digits after a point at the start of a text, when there are any. -/
def fractionPart : List Char → List Char
  | '.' :: cs => cs.takeWhile isDigit
  | _ => []

/-- The sign, the digits and the length of an exponent at the start of a text. -/
def exponentPart : List Char → Option (Bool × List Char × Nat)
  | c :: rest =>
    if c = 'e' || c = 'E' then
      let (negative, signLength) := match rest with
        | '-' :: _ => (true, 1)
        | '+' :: _ => (false, 1)
        | _ => (false, 0)
      let digits := (rest.drop signLength).takeWhile isDigit
      if digits.isEmpty then none else some (negative, digits, 1 + signLength + digits.length)
    else none
  | [] => none

/-- A number without its sign at the start of a text, and its length. -/
def readNumber (negative : Bool) (cs : List Char) : Option (Token × Nat) :=
  let whole := wholePart cs
  if whole.isEmpty then none
  else
    let rest := cs.drop whole.length
    let fraction := fractionPart rest
    let fractionLength := if fraction.isEmpty then 0 else fraction.length + 1
    let exponent := exponentPart (rest.drop fractionLength)
    if fraction.isEmpty && exponent.isNone then
      if maxDigits < whole.length then some (.tooLong whole.length, whole.length)
      else
        let n : Int := natOfDigits whole
        some (.atom (.int (if negative then -n else n)), whole.length)
    else
      let (power, exponentLength) : Int × Nat := match exponent with
        | none => (0, 0)
        | some (down, digits, length) =>
          (if down then -(natOfDigits digits : Int) else natOfDigits digits, length)
      let x := Binary64.ofDecimal negative (natOfDigits (whole ++ fraction))
        (power - fraction.length)
      some (.atom (.real x), whole.length + fractionLength + exponentLength)

/-- The atoms written as words. -/
def wordAtoms : List (String × Json) :=
  [("null", .null), ("true", .bool true), ("false", .bool false), ("NaN", .real .nan),
   ("Infinity", .real (.infinite false)), ("-Infinity", .real (.infinite true))]

/-- The word atom at the start of a text, and its length. -/
def readWord (cs : List Char) : Option (Token × Nat) :=
  wordAtoms.findSome? fun (word, v) =>
    if (Text.dropStart? word.toList cs).isSome then some (.atom v, word.length) else none

/-- The token that begins with `c` at the position `pos`, and its length. -/
def readToken (pos : Nat) (c : Char) (rest : List Char) : Token × Nat :=
  if c = '\x7b' then (.openBrace, 1)
  else if c = '\x7d' then (.closeBrace, 1)
  else if c = '[' then (.openBracket, 1)
  else if c = ']' then (.closeBracket, 1)
  else if c = ':' then (.colon, 1)
  else if c = ',' then (.comma, 1)
  else if c = '"' then
    match readString pos (pos + 1) rest with
    | .ok (cs, stop) => (.str (String.ofList cs), stop - pos)
    | .error e => (.broken e, 1)
  else
    match readWord (c :: rest) with
    | some found => found
    | none =>
      let number :=
        if c = '-' then (readNumber true rest).map fun (t, n) => (t, n + 1)
        else readNumber false (c :: rest)
      number.getD (.junk, 1)

/-- The character may stand between tokens. -/
def isSpace (c : Char) : Bool := c = ' ' || c = '\t' || c = '\n' || c = '\r'

/-- A token and the position of its first character. -/
structure Located where
  token : Token
  position : Nat

/-- Cuts `cs`, whose first character stands at `pos`, into tokens. -/
def tokensFrom (pos : Nat) (cs : List Char) : List Located :=
  match cs with
  | [] => []
  | c :: rest =>
    if isSpace c then tokensFrom (pos + 1) rest
    else
      match readToken pos c rest with
      | (.broken e, _) => [⟨.broken e, pos⟩]
      | (token, length) =>
        ⟨token, pos⟩ :: tokensFrom (pos + 1 + (length - 1)) (rest.drop (length - 1))
termination_by cs.length
decreasing_by all_goals (simp only [List.length_drop, List.length_cons]; omega)

/-- The tokens of a text. -/
def tokens (cs : List Char) : List Located := tokensFrom 0 cs

end TsProject.Json

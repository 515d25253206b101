/-!
# Shell words

A command line is cut into words at blanks, tabs, carriage returns and line feeds. An apostrophe
quotes everything up to the next one; a double quote does the same, but a backslash inside it
escapes a double quote or a backslash; outside quotes a backslash escapes any character. A word
that consists of quotes only is an empty word and is kept.
-/

namespace TsProject.Text

/-- Why a command line has no words. -/
inductive WordsError where
  | noClosingQuotation
  | noEscapedCharacter
  deriving DecidableEq, Repr

/-- The text of the error. -/
def WordsError.message : WordsError → String
  | .noClosingQuotation => "No closing quotation"
  | .noEscapedCharacter => "No escaped character"

/-- Where the reader stands. -/
inductive WordMode where
  /-- Between words. -/
  | between
  /-- Inside a word, outside quotes. -/
  | inside
  /-- Inside apostrophes or double quotes. -/
  | quoting (quote : Char)
  /-- After a backslash outside quotes. -/
  | escaping
  /-- After a backslash inside double quotes. -/
  | escapingQuoted
  deriving DecidableEq, Repr

/-- The character separates words. -/
def isWordBlank (c : Char) : Bool := c = ' ' || c = '\t' || c = '\r' || c = '\n'

/-- Reads on from `mode`; `word` holds the characters of the current word, last first. -/
def wordsFrom : WordMode → (word : List Char) → List Char → Except WordsError (List String)
  | .between, _, [] => .ok []
  | .inside, word, [] => .ok [String.ofList word.reverse]
  | .quoting _, _, [] => .error .noClosingQuotation
  | .escaping, _, [] => .error .noEscapedCharacter
  | .escapingQuoted, _, [] => .error .noEscapedCharacter
  | .between, word, c :: rest =>
    if isWordBlank c then wordsFrom .between word rest
    else if c = '\\' then wordsFrom .escaping [] rest
    else if c = '\'' || c = '"' then wordsFrom (.quoting c) [] rest
    else wordsFrom .inside [c] rest
  | .inside, word, c :: rest =>
    if isWordBlank c then
      (wordsFrom .between [] rest).map (String.ofList word.reverse :: ·)
    else if c = '\\' then wordsFrom .escaping word rest
    else if c = '\'' || c = '"' then wordsFrom (.quoting c) word rest
    else wordsFrom .inside (c :: word) rest
  | .quoting quote, word, c :: rest =>
    if c = quote then wordsFrom .inside word rest
    else if c = '\\' && quote = '"' then wordsFrom .escapingQuoted word rest
    else wordsFrom (.quoting quote) (c :: word) rest
  | .escaping, word, c :: rest => wordsFrom .inside (c :: word) rest
  | .escapingQuoted, word, c :: rest =>
    if c = '"' || c = '\\' then wordsFrom (.quoting '"') (c :: word) rest
    else wordsFrom (.quoting '"') (c :: '\\' :: word) rest

/-- The words of a command line. -/
def words (s : String) : Except WordsError (List String) := wordsFrom .between [] s.toList

end TsProject.Text

import TsProject.Json.Comments
import TsProject.Proofs.Json.Lexeme

/-!
# What stripping leaves

Stripping works piece by piece: a filler, which is a space or a closed comment, leaves spaces
(`exists_stripFrom_filler`), a lexeme that is no comma is kept (`stripFrom_lexeme`), and a comma
is kept unless the next solid character closes a list or an object (`stripFrom_comma`). What the
comments and the strings hold does not matter.
-/

namespace TsProject.Json

/-- **Filler** between lexemes: space, a line comment with its line feed, or a closed block
comment. -/
inductive IsFiller : List Char → Prop
  | space {c : Char} : isSpace c → IsFiller [c]
  | line {body : List Char} : '\n' ∉ body → IsFiller ('/' :: '/' :: (body ++ ['\n']))
  | block {body : List Char} : ¬['*', '/'] <:+: body →
      IsFiller ('/' :: '*' :: (body ++ ['*', '/']))

/-- What stripping leaves of a text, and the text's next solid character. -/
def stripFrom (cs : List Char) : List Char × Option Char := blankMarked (marks .code cs)

variable {cs ds l body : List Char} {c : Char}

/-! ### Characters -/

theorem isBlank_of_isSpace (h : isSpace c) : Text.isBlank c := by
  simp only [isSpace, Bool.or_eq_true, decide_eq_true_eq] at h
  rcases h with ((rfl | rfl) | rfl) | rfl <;> decide

/-- No lexeme begins with a blank, a slash or a byte order mark. -/
theorem BeginsLexeme.isSolid {c : Char} (h : BeginsLexeme c) :
    Text.isBlank c = false ∧ c ≠ '/' ∧ c ≠ '\ufeff' :=
  forall_beginsLexeme (p := fun c => Text.isBlank c = false ∧ c ≠ '/' ∧ c ≠ '\ufeff')
    (by decide +kernel) h

theorem ne_of_isSpace (h : isSpace c) : c ≠ '"' ∧ c ≠ '/' ∧ c ≠ ',' := by
  simp only [isSpace, Bool.or_eq_true, decide_eq_true_eq] at h
  rcases h with ((rfl | rfl) | rfl) | rfl <;> decide

/-! ### The scan -/

theorem marks_code_cons (hquote : c ≠ '"') (hslash : c ≠ '/') :
    marks .code (c :: cs) = (c, .code) :: marks .code cs := by
  rw [marks] <;> simp_all

/-- The inside of a string is part of the string. -/
theorem marks_body (h : IsBody body) :
    marks .string (body ++ cs) = body.map (·, .string) ++ marks .string cs := by
  induction h with
  | nil => rfl
  | plain hquote hslash _ ih =>
    rw [List.cons_append, marks, ih]
    · rfl
    · exact hquote
    · exact hslash
  | escape _ ih =>
    simp only [List.cons_append, marks, ih]
    rfl

/-- A string runs up to its closing quote. -/
theorem marks_string (h : IsBody body) : marks .string (body ++ '"' :: cs) =
    (body ++ ['"']).map (·, .string) ++ marks .code cs := by
  rw [marks_body h, marks, List.map_append, List.append_assoc]
  rfl

/-- What stands on the line of a line comment is part of the comment. -/
theorem marks_line (h : '\n' ∉ body) :
    marks .lineComment (body ++ cs) = body.map (·, .comment) ++ marks .lineComment cs := by
  induction body with
  | nil => rfl
  | cons c body ih =>
    rw [List.mem_cons, not_or] at h
    rw [List.cons_append, marks, ih h.2]
    · rfl
    · exact fun hc => h.1 hc.symm

/-- A line comment runs up to its line feed. -/
theorem marks_lineComment (h : '\n' ∉ body) : marks .lineComment (body ++ '\n' :: cs) =
    body.map (·, .comment) ++ ('\n', .code) :: marks .code cs := by
  rw [marks_line h, marks]

/-- Where no end of a block comment begins, the comment goes on. -/
theorem marks_block (h : ¬['*', '/'] <:+: body ++ cs.take 1) : marks .blockComment (body ++ cs) =
    body.map (·, .comment) ++ marks .blockComment cs := by
  induction body with
  | nil => rfl
  | cons c body ih =>
    have hbody : ¬['*', '/'] <:+: body ++ cs.take 1 := fun hend =>
      h (hend.trans (List.suffix_cons c _).isInfix)
    -- an end that begins here would lie within the body and the next character
    have hopen : ∀ rest, c = '*' → body ++ cs = '/' :: rest → False := by
      rintro rest rfl heq
      have hslash : body ++ cs.take 1 = '/' :: (body ++ cs.take 1).tail := by
        cases body with
        | nil =>
          obtain rfl : cs = '/' :: rest := heq
          rfl
        | cons d body =>
          obtain rfl : d = '/' := (List.cons.inj heq).1
          rfl
      rw [List.cons_append, hslash] at h
      exact h (List.prefix_append ['*', '/'] _).isInfix
    rw [List.cons_append, marks, ih hbody]
    · rfl
    · exact hopen

/-- A block comment runs through the first end of a comment. -/
theorem marks_blockComment (h : ¬['*', '/'] <:+: body) :
    marks .blockComment (body ++ '*' :: '/' :: cs) =
      (body ++ ['*', '/']).map (·, .comment) ++ marks .code cs := by
  have hstar : ¬['*', '/'] <:+: body ++ ['*'] := by
    rw [List.infix_concat_iff, not_or]
    refine ⟨fun hend => ?_, h⟩
    have hlast := List.IsSuffix.getLast hend (by simp)
    simp at hlast
  rw [marks_block hstar, marks, List.map_append, List.append_assoc]
  rfl

/-! ### The pass from the right -/

theorem blankMarked_string (f : List Char) (ms : List (Char × Mark)) :
    blankMarked (f.map (·, .string) ++ ms) =
      (f ++ (blankMarked ms).1, f.head?.or (blankMarked ms).2) := by
  induction f with
  | nil => rfl
  | cons c f ih => simp [blankMarked, ih]

/-- Comments leave spaces and line feeds. -/
theorem blankMarked_comment (f : List Char) (ms : List (Char × Mark)) :
    blankMarked (f.map (·, .comment) ++ ms) =
      (f.map (fun c => if c = '\n' then c else ' ') ++ (blankMarked ms).1,
        (blankMarked ms).2) := by
  induction f with
  | nil => rfl
  | cons c f ih => simp [blankMarked, ih]

/-! ### Pieces -/

theorem stripFrom_code_cons (hquote : c ≠ '"') (hslash : c ≠ '/') :
    stripFrom (c :: cs) = ((if c = ',' && closes (stripFrom cs).2 then ' ' else c) ::
      (stripFrom cs).1, if Text.isBlank c then (stripFrom cs).2 else some c) := by
  rw [stripFrom, marks_code_cons hquote hslash]
  rfl

/-- **Space** is kept. -/
theorem stripFrom_space (h : isSpace c) :
    stripFrom (c :: cs) = (c :: (stripFrom cs).1, (stripFrom cs).2) := by
  obtain ⟨hquote, hslash, hcomma⟩ := ne_of_isSpace h
  rw [stripFrom_code_cons hquote hslash, isBlank_of_isSpace h]
  simp [hcomma]

/-- **A comma** is kept unless the next solid character closes something. -/
theorem stripFrom_comma : stripFrom (',' :: cs) =
    ((if closes (stripFrom cs).2 then ' ' else ',') :: (stripFrom cs).1, some ',') := by
  have hblank : Text.isBlank ',' = false := by decide
  rw [stripFrom_code_cons (by decide) (by decide), hblank]
  simp

theorem stripFrom_string (h : IsBody body) : stripFrom ('"' :: (body ++ '"' :: cs)) =
    ('"' :: (body ++ '"' :: (stripFrom cs).1), some '"') := by
  have hmarks : marks .code ('"' :: (body ++ '"' :: cs)) =
      ('"' :: (body ++ ['"'])).map (·, .string) ++ marks .code cs := by
    rw [marks, marks_string h]
    rfl
  rw [stripFrom, hmarks, blankMarked_string]
  simp [stripFrom]

theorem stripFrom_word {w : List Char} (hw : ∀ c ∈ w, isWordChar c) :
    stripFrom (w ++ cs) = (w ++ (stripFrom cs).1, w.head?.or (stripFrom cs).2) := by
  induction w with
  | nil => rfl
  | cons c w ih =>
    have hc := hw c List.mem_cons_self
    obtain ⟨hmark, hquote⟩ := not_mem_punctuation_of_isWordChar hc
    obtain ⟨hblank, hslash, -⟩ := BeginsLexeme.isSolid (.inr (.inr hc))
    have hcomma : c ≠ ',' := by
      rintro rfl
      exact hmark (by decide)
    rw [List.cons_append, stripFrom_code_cons hquote hslash,
      ih fun d hd => hw d (List.mem_cons_of_mem c hd), hblank]
    simp [hcomma]

/-- **A lexeme** that is no comma is kept, and is what comes next. -/
theorem stripFrom_lexeme (hl : IsLexeme cs l) (hcomma : l ≠ [',']) (ds : List Char) :
    stripFrom (l ++ ds) = (l ++ (stripFrom ds).1, l.head?) := by
  cases hl with
  | @mark c hc =>
    obtain ⟨hblank, hslash, -⟩ := BeginsLexeme.isSolid (.inl hc)
    have hquote : c ≠ '"' := by
      rintro rfl
      exact absurd hc (by decide)
    have hcomma : c ≠ ',' := fun h => hcomma (congrArg (fun c => [c]) h)
    rw [List.singleton_append, stripFrom_code_cons hquote hslash, hblank]
    simp [hcomma]
  | string hbody =>
    simpa using @stripFrom_string ds _ hbody
  | word hne hw =>
    obtain ⟨c, w, rfl⟩ := List.exists_cons_of_ne_nil hne
    exact stripFrom_word hw

/-- **Filler** leaves spaces, and what comes next is behind it. -/
theorem exists_stripFrom_filler {f : List Char} (h : IsFiller f) :
    ∃ spaces : List Char, (∀ c ∈ spaces, isSpace c) ∧
      ∀ cs, stripFrom (f ++ cs) = (spaces ++ (stripFrom cs).1, (stripFrom cs).2) := by
  have hblanked : ∀ body : List Char,
      ∀ c ∈ body.map (fun c => if c = '\n' then c else ' '), isSpace c := by
    intro body c hc
    obtain ⟨d, -, rfl⟩ := List.mem_map.mp hc
    split_ifs with hd
    · rw [hd]
      decide
    · decide
  cases h with
  | @space c hc => exact ⟨[c], by simpa using hc, fun cs => stripFrom_space hc⟩
  | @line body hbody =>
    refine ⟨('/' :: '/' :: (body ++ ['\n'])).map (fun c => if c = '\n' then c else ' '),
      hblanked _, fun cs => ?_⟩
    have hmarks : marks .code ('/' :: '/' :: (body ++ ['\n']) ++ cs) =
        ('/' :: '/' :: body).map (·, .comment) ++ marks .code ('\n' :: cs) := by
      rw [List.cons_append, List.cons_append, List.append_assoc, marks,
        List.singleton_append, marks_lineComment hbody, marks_code_cons (by decide) (by decide)]
      rfl
    have hspace : isSpace '\n' := by decide
    rw [stripFrom, hmarks, blankMarked_comment, ← stripFrom, stripFrom_space hspace]
    simp
  | @block body hbody =>
    refine ⟨('/' :: '*' :: (body ++ ['*', '/'])).map (fun c => if c = '\n' then c else ' '),
      hblanked _, fun cs => ?_⟩
    have hmarks : marks .code ('/' :: '*' :: (body ++ ['*', '/']) ++ cs) =
        ('/' :: '*' :: (body ++ ['*', '/'])).map (·, .comment) ++ marks .code cs := by
      rw [List.cons_append, List.cons_append, List.append_assoc, marks]
      exact congrArg _ (congrArg _ (marks_blockComment hbody))
    rw [stripFrom, hmarks, blankMarked_comment]
    rfl

end TsProject.Json

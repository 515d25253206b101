import TsProject.Proofs.Json.StringBody
import TsProject.Text.Blank
import TsProject.Text.Words

/-!
# Shell words: laws

A command line can be cut into words exactly if everything that is opened in it is closed: each
backslash has a character behind it, and each quotation ends (`exists_words_iff`). The reader works
in modes, and `Closes` says for each of them which texts may follow; reading a character takes the
text that follows in one mode to that in the next, which the `closes_…_cons_iff` lemmas say.
-/

namespace TsProject.Text

/-- What may stand in a quotation: no other quote of its kind, unless it is escaped, which only
double quotes allow for. -/
def InQuotes (quote : Char) (body : List Char) : Prop :=
  if quote = '"' then Json.IsBody body else quote ∉ body

/-- **A well-quoted text** consists of plain characters, escaped characters and quotations. -/
inductive IsQuoted : List Char → Prop
  | nil : IsQuoted []
  | plain {c : Char} {rest : List Char} : c ≠ '\\' → c ≠ '\'' → c ≠ '"' → IsQuoted rest →
      IsQuoted (c :: rest)
  | escape {c : Char} {rest : List Char} : IsQuoted rest → IsQuoted ('\\' :: c :: rest)
  | quotes {quote : Char} {body rest : List Char} : quote = '\'' ∨ quote = '"' →
    InQuotes quote body → IsQuoted rest → IsQuoted (quote :: (body ++ quote :: rest))

/-- The rest of a text that begins in a quotation. -/
def ClosesQuote (quote : Char) (cs : List Char) : Prop :=
  ∃ body rest, cs = body ++ quote :: rest ∧ InQuotes quote body ∧ IsQuoted rest

/-- **What may follow** in each mode. -/
def Closes : WordMode → List Char → Prop
  | .between, cs => IsQuoted cs
  | .inside, cs => IsQuoted cs
  | .quoting quote, cs => ClosesQuote quote cs
  | .escaping, cs => ∃ c rest, cs = c :: rest ∧ IsQuoted rest
  | .escapingQuoted, cs => ∃ c rest, cs = c :: rest ∧ ClosesQuote '"' rest

variable {c quote : Char} {cs rest word : List Char}

theorem isQuoted_escape_iff : IsQuoted ('\\' :: rest) ↔ Closes .escaping rest := by
  constructor
  · intro h
    cases h with
    | plain hslash => exact absurd rfl hslash
    | escape h => exact ⟨_, _, rfl, h⟩
    | quotes hquote => exact absurd hquote (by decide)
  · rintro ⟨c, rest, rfl, h⟩
    exact .escape h

theorem isQuoted_quote_iff (hquote : c = '\'' ∨ c = '"') :
    IsQuoted (c :: rest) ↔ ClosesQuote c rest := by
  constructor
  · intro h
    cases h with
    | plain _ hsingle hdouble => exact absurd hquote (by simp [hsingle, hdouble])
    | escape => exact absurd hquote (by decide)
    | quotes _ hbody hrest => exact ⟨_, _, rfl, hbody, hrest⟩
  · rintro ⟨body, rest, rfl, hbody, hrest⟩
    exact .quotes hquote hbody hrest

theorem isQuoted_plain_iff (hslash : c ≠ '\\') (hquote : ¬(c = '\'' ∨ c = '"')) :
    IsQuoted (c :: rest) ↔ IsQuoted rest := by
  constructor
  · intro h
    cases h with
    | plain _ _ _ h => exact h
    | escape => exact absurd rfl hslash
    | quotes hc => exact absurd hc hquote
  · rw [not_or] at hquote
    exact .plain hslash hquote.1 hquote.2

theorem inQuotes_nil : InQuotes quote [] := by
  rw [InQuotes]
  split_ifs
  · exact .nil
  · exact List.not_mem_nil

theorem not_inQuotes_quote {body : List Char} : ¬InQuotes quote (quote :: body) := by
  rw [InQuotes]
  split_ifs with hdouble
  · subst hdouble
    rintro (_ | hquote)
    exact hquote rfl
  · exact fun hmem => hmem List.mem_cons_self

theorem inQuotes_cons_iff {body : List Char} (hquote : c ≠ quote)
    (hslash : ¬(c = '\\' ∧ quote = '"')) : InQuotes quote (c :: body) ↔ InQuotes quote body := by
  rw [InQuotes, InQuotes]
  split_ifs with hdouble
  · subst hdouble
    have hplain : c ≠ '\\' := fun hc => hslash ⟨hc, rfl⟩
    refine ⟨fun h => ?_, .plain hquote hplain⟩
    cases h with
    | plain _ _ h => exact h
    | escape => exact absurd rfl hplain
  · simp [Ne.symm hquote]

theorem inQuotes_escape_iff {body : List Char} :
    InQuotes '"' ('\\' :: c :: body) ↔ InQuotes '"' body := by
  refine ⟨fun h => ?_, .escape⟩
  cases h with
  | plain _ hslash => exact absurd rfl hslash
  | escape h => exact h

/-- A quotation goes on behind every character that does not end it. -/
theorem closesQuote_cons_iff : ClosesQuote quote (c :: rest) ↔
    if c = quote then IsQuoted rest
    else if c = '\\' ∧ quote = '"' then Closes .escapingQuoted rest
    else ClosesQuote quote rest := by
  split_ifs with hquote hslash
  · subst hquote
    refine ⟨?_, fun h => ⟨[], rest, rfl, inQuotes_nil, h⟩⟩
    rintro ⟨_ | ⟨d, body⟩, after, heq, hbody, hafter⟩
    · exact (List.cons.inj heq).2 ▸ hafter
    · exact absurd ((List.cons.inj heq).1 ▸ hbody) not_inQuotes_quote
  · obtain ⟨rfl, rfl⟩ := hslash
    constructor
    · rintro ⟨_ | ⟨d, _ | ⟨e, body⟩⟩, after, heq, hbody, hafter⟩
      · exact absurd (List.cons.inj heq).1 hquote
      · obtain ⟨rfl, -⟩ := List.cons.inj heq
        rcases hbody with _ | ⟨-, hslash⟩
        exact absurd rfl hslash
      · obtain ⟨rfl, rfl⟩ := List.cons.inj heq
        exact ⟨e, _, rfl, body, after, rfl, inQuotes_escape_iff.mp hbody, hafter⟩
    · rintro ⟨e, _, rfl, body, after, rfl, hbody, hafter⟩
      exact ⟨'\\' :: e :: body, after, rfl, inQuotes_escape_iff.mpr hbody, hafter⟩
  · constructor
    · rintro ⟨_ | ⟨d, body⟩, after, heq, hbody, hafter⟩
      · exact absurd (List.cons.inj heq).1 hquote
      · obtain ⟨rfl, rfl⟩ := List.cons.inj heq
        exact ⟨body, after, rfl, (inQuotes_cons_iff hquote hslash).mp hbody, hafter⟩
    · rintro ⟨body, after, rfl, hbody, hafter⟩
      exact ⟨c :: body, after, rfl, (inQuotes_cons_iff hquote hslash).mpr hbody, hafter⟩

theorem not_closesQuote_nil : ¬ClosesQuote quote [] := by
  rintro ⟨body, rest, hnil, -⟩
  simp at hnil

/-- A blank between words is neither a quote nor a backslash. -/
theorem isQuoted_blank_iff (h : isWordBlank c) : IsQuoted (c :: rest) ↔ IsQuoted rest := by
  simp only [isWordBlank, Bool.or_eq_true, decide_eq_true_eq] at h
  obtain ((rfl | rfl) | rfl) | rfl := h <;> exact isQuoted_plain_iff (by decide) (by decide)

/-- **Words can be read** on from a mode exactly where the text may follow in it. -/
theorem exists_wordsFrom_iff {mode : WordMode} :
    (∃ words, wordsFrom mode word cs = .ok words) ↔ Closes mode cs := by
  induction cs generalizing mode word with
  | nil =>
    cases mode with
    | between | inside => exact iff_of_true ⟨_, rfl⟩ .nil
    | quoting => exact iff_of_false (by simp [wordsFrom]) not_closesQuote_nil
    | escaping | escapingQuoted => exact iff_of_false (by simp [wordsFrom]) (by simp [Closes])
  | cons c cs ih =>
    cases mode with
    | between =>
      rw [wordsFrom, Closes]
      split_ifs with hblank hslash hquote
      · rw [ih, isQuoted_blank_iff hblank, Closes]
      · rw [ih, hslash, isQuoted_escape_iff]
      · rw [ih, isQuoted_quote_iff (by simpa using hquote), Closes]
      · rw [ih, isQuoted_plain_iff hslash (by simpa using hquote), Closes]
    | inside =>
      rw [wordsFrom, Closes]
      split_ifs with hblank hslash hquote
      · have hrest : (∃ words, wordsFrom .between [] cs = .ok words) ↔ IsQuoted cs := ih
        rw [isQuoted_blank_iff hblank, ← hrest]
        cases wordsFrom .between [] cs <;> simp [Except.map]
      · rw [ih, hslash, isQuoted_escape_iff]
      · rw [ih, isQuoted_quote_iff (by simpa using hquote), Closes]
      · rw [ih, isQuoted_plain_iff hslash (by simpa using hquote), Closes]
    | quoting quote =>
      rw [wordsFrom, Closes, closesQuote_cons_iff]
      simp only [Bool.and_eq_true, decide_eq_true_eq]
      split_ifs
      · rw [ih, Closes]
      · rw [ih]
      · rw [ih, Closes]
    | escaping =>
      rw [wordsFrom, ih, Closes, Closes]
      simp
    | escapingQuoted =>
      have hclose : Closes .escapingQuoted (c :: cs) ↔ ClosesQuote '"' cs := by simp [Closes]
      rw [wordsFrom, hclose]
      split_ifs <;> rw [ih, Closes]

/-- **When a command line has words**: everything that is opened in it is closed. -/
theorem exists_words_iff {s : String} : (∃ ws, words s = .ok ws) ↔ IsQuoted s.toList :=
  exists_wordsFrom_iff

/-! ### How many words there are -/

/-- A word that has begun is one of the words. -/
theorem wordsFrom_ne_nil {mode : WordMode} (hmode : mode ≠ .between) {ws : List String}
    (h : wordsFrom mode word cs = .ok ws) : ws ≠ [] := by
  induction cs generalizing mode word with
  | nil =>
    cases mode with
    | between => exact absurd rfl hmode
    | inside =>
      obtain rfl := Except.ok.inj h
      exact List.cons_ne_nil _ _
    | quoting | escaping | escapingQuoted => cases h
  | cons c cs ih =>
    cases mode with
    | between => exact absurd rfl hmode
    | inside =>
      rw [wordsFrom] at h
      split_ifs at h
      · cases hrest : wordsFrom .between [] cs with
        | error e => simp [hrest, Except.map] at h
        | ok more =>
          rw [hrest] at h
          obtain rfl := Except.ok.inj h
          exact List.cons_ne_nil _ _
      all_goals exact ih (by simp) h
    | quoting quote =>
      rw [wordsFrom] at h
      split_ifs at h
      all_goals exact ih (by simp) h
    | escaping => exact ih (by simp) h
    | escapingQuoted =>
      rw [wordsFrom] at h
      split_ifs at h
      all_goals exact ih (by simp) h

/-- **A command line without words** is blank. -/
theorem isBlankText_of_words_eq_nil {s : String} (h : words s = .ok []) : isBlankText s := by
  have hall : ∀ cs word, wordsFrom .between word cs = .ok [] → cs.all isBlank := by
    intro cs word hcs
    induction cs with
    | nil => rfl
    | cons c cs ih =>
      rw [wordsFrom] at hcs
      split_ifs at hcs with hblank
      · rw [List.all_cons, ih hcs, Bool.and_true]
        simp only [isWordBlank, Bool.or_eq_true, decide_eq_true_eq] at hblank
        obtain ((rfl | rfl) | rfl) | rfl := hblank <;> decide
      all_goals exact absurd rfl (wordsFrom_ne_nil (by simp) hcs)
  exact hall s.toList [] h

/-- A blank text has nothing to close. -/
theorem isQuoted_of_isBlankText {s : String} (h : isBlankText s) : IsQuoted s.toList := by
  have hall : ∀ cs : List Char, cs.all isBlank → IsQuoted cs := by
    intro cs hcs
    induction cs with
    | nil => exact .nil
    | cons c cs ih =>
      rw [List.all_cons, Bool.and_eq_true] at hcs
      obtain ⟨hblank, hrest⟩ := hcs
      have hne : ∀ d, isBlank d = false → c ≠ d := by
        rintro d hd rfl
        cases hblank.symm.trans hd
      exact .plain (hne _ (by decide)) (hne _ (by decide)) (hne _ (by decide)) (ih hrest)
  exact hall s.toList h

end TsProject.Text

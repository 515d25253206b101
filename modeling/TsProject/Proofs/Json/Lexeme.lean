import TsProject.Proofs.Json.StringBody
import TsProject.Proofs.Text.Split

/-!
# Lexemes of the data format

A lexeme is a punctuation character, a string with its quotes, or a word: a run of letters,
digits, signs and points with no such character behind it. Cutting a text into tokens keeps to
lexemes: the tokens of a lexeme followed by a text are its own and then those of the text
(`tokensFrom_mark`, `tokensFrom_string`, `tokensFrom_word_append`).
-/

namespace TsProject.Json

/-- The characters that are lexemes by themselves. -/
def punctuation : List Char := ['\x7b', '\x7d', '[', ']', ':', ',']

/-- A character of a number or of a word. -/
def isWordChar (c : Char) : Bool := c.isAlphanum || c = '+' || c = '-' || c = '.'

/-- A word ends in front of the text. -/
def EndsWord (rest : List Char) : Prop := ∀ c ∈ rest.head?, isWordChar c = false

theorem endsWord_nil : EndsWord [] := by simp [EndsWord]

theorem endsWord_cons_iff {c : Char} {rest : List Char} :
    EndsWord (c :: rest) ↔ isWordChar c = false := by
  simp [EndsWord]

/-- **A lexeme** in front of a text. -/
inductive IsLexeme (rest : List Char) : List Char → Prop
  | mark {c : Char} : c ∈ punctuation → IsLexeme rest [c]
  | string {body : List Char} : IsBody body → IsLexeme rest ('"' :: (body ++ ['"']))
  | word {w : List Char} : w ≠ [] → (∀ c ∈ w, isWordChar c) → EndsWord rest → IsLexeme rest w

/-- A character that lexemes begin with. -/
def BeginsLexeme (c : Char) : Prop := c ∈ punctuation ∨ c = '"' ∨ isWordChar c

instance (c : Char) : Decidable (BeginsLexeme c) :=
  inferInstanceAs (Decidable (c ∈ punctuation ∨ c = '"' ∨ isWordChar c))

theorem IsLexeme.exists_cons {rest l : List Char} (h : IsLexeme rest l) :
    ∃ c tail, l = c :: tail ∧ BeginsLexeme c := by
  cases h with
  | mark hc => exact ⟨_, [], rfl, .inl hc⟩
  | string => exact ⟨'"', _, rfl, .inr (.inl rfl)⟩
  | word hne hw =>
    obtain ⟨c, w, rfl⟩ := List.exists_cons_of_ne_nil hne
    exact ⟨c, w, rfl, .inr (.inr (hw c List.mem_cons_self))⟩

/-! ### Characters -/

theorem toNat_lt_of_isWordChar {c : Char} (h : isWordChar c) : c.toNat < 128 := by
  delta isWordChar Char.isAlphanum Char.isAlpha Char.isUpper Char.isLower Char.isDigit at h
  simp only [Bool.or_eq_true, Bool.and_eq_true, decide_eq_true_eq, UInt32.le_iff_toNat_le,
    ge_iff_le] at h
  change ((((((65 ≤ c.toNat ∧ c.toNat ≤ 90) ∨ (97 ≤ c.toNat ∧ c.toNat ≤ 122)) ∨
    (48 ≤ c.toNat ∧ c.toNat ≤ 57)) ∨ c = '+') ∨ c = '-') ∨ c = '.') at h
  rcases h with ((h | rfl) | rfl) | rfl
  · omega
  · decide
  · decide
  · decide

/-- What holds of the characters that lexemes begin with is seen by looking at each. -/
theorem forall_beginsLexeme {p : Char → Prop}
    (h : ∀ n < 128, BeginsLexeme (Char.ofNat n) → p (Char.ofNat n)) {c : Char}
    (hc : BeginsLexeme c) : p c := by
  have hlt : c.toNat < 128 := by
    rcases hc with hmark | rfl | hword
    · simp only [punctuation, List.mem_cons, List.not_mem_nil, or_false] at hmark
      rcases hmark with rfl | rfl | rfl | rfl | rfl | rfl <;> decide
    · decide
    · exact toNat_lt_of_isWordChar hword
  have hp := h c.toNat hlt
  rw [Char.ofNat_toNat] at hp
  exact hp hc

theorem BeginsLexeme.isSpace_eq_false {c : Char} (h : BeginsLexeme c) : isSpace c = false :=
  forall_beginsLexeme (p := fun c => isSpace c = false) (by decide +kernel) h

/-- A character of a word is no lexeme by itself, and begins no string. -/
theorem not_mem_punctuation_of_isWordChar {c : Char} (h : isWordChar c) :
    c ∉ punctuation ∧ c ≠ '"' :=
  forall_beginsLexeme (p := fun c => isWordChar c → c ∉ punctuation ∧ c ≠ '"')
    (by decide +kernel) (.inr (.inr h)) h

theorem isWordChar_of_isDigit {c : Char} (h : isDigit c) : isWordChar c := by
  have hdigit : c.isDigit := h
  simp [isWordChar, Char.isAlphanum, hdigit]

theorem all_isWordChar_wordAtoms :
    ∀ atom ∈ wordAtoms, ∀ c ∈ atom.1.toList, isWordChar c := by
  have hall : wordAtoms.all fun atom => atom.1.toList.all isWordChar := by decide +kernel
  intro atom hatom
  exact List.all_eq_true.mp (List.all_eq_true.mp hall atom hatom)

/-! ### Numbers and words -/

section Words

variable {p : Char → Bool} {cs rest : List Char}

theorem takeWhile_append_of_head (h : ∀ c ∈ rest.head?, p c = false) :
    (cs ++ rest).takeWhile p = cs.takeWhile p := by
  induction cs with
  | nil =>
    cases rest with
    | nil => rfl
    | cons c rest => exact List.takeWhile_cons_of_neg (by simpa using h)
  | cons c cs ih =>
    rw [List.cons_append, List.takeWhile_cons, List.takeWhile_cons, ih]

theorem EndsWord.not_isDigit (h : EndsWord rest) : ∀ c ∈ rest.head?, isDigit c = false := by
  intro c hc
  have hend := h c hc
  by_contra hdigit
  rw [isWordChar_of_isDigit (by simpa using hdigit)] at hend
  cases hend

/-- The character behind a word is none that could belong to it. -/
theorem EndsWord.head?_ne (h : EndsWord rest) {c : Char} (hc : isWordChar c) :
    rest.head? ≠ some c := by
  intro hhead
  rw [h c hhead] at hc
  cases hc

theorem wholePart_of_head?_ne (h : cs.head? ≠ some '0') : wholePart cs = cs.takeWhile isDigit := by
  rw [wholePart]
  rintro tail rfl
  exact h rfl

theorem fractionPart_of_head?_ne (h : cs.head? ≠ some '.') : fractionPart cs = [] := by
  rw [fractionPart]
  rintro tail rfl
  exact h rfl

theorem wholePart_append (h : EndsWord rest) : wholePart (cs ++ rest) = wholePart cs := by
  by_cases hzero : cs.head? = some '0'
  · obtain ⟨tail, rfl⟩ : ∃ tail, cs = '0' :: tail := by
      cases cs <;> simp_all
    rfl
  · have happend : (cs ++ rest).head? ≠ some '0' := by
      cases cs with
      | nil => exact h.head?_ne (by decide)
      | cons c cs => exact hzero
    rw [wholePart_of_head?_ne hzero, wholePart_of_head?_ne happend,
      takeWhile_append_of_head h.not_isDigit]

theorem fractionPart_append (h : EndsWord rest) :
    fractionPart (cs ++ rest) = fractionPart cs := by
  by_cases hpoint : cs.head? = some '.'
  · obtain ⟨tail, rfl⟩ : ∃ tail, cs = '.' :: tail := by
      cases cs <;> simp_all
    exact takeWhile_append_of_head h.not_isDigit
  · have happend : (cs ++ rest).head? ≠ some '.' := by
      cases cs with
      | nil => exact h.head?_ne (by decide)
      | cons c cs => exact hpoint
    rw [fractionPart_of_head?_ne hpoint, fractionPart_of_head?_ne happend]

/-- The sign at the start of an exponent, and its length. -/
def signPart : List Char → Bool × Nat
  | '-' :: _ => (true, 1)
  | '+' :: _ => (false, 1)
  | _ => (false, 0)

theorem signPart_append (h : EndsWord rest) : signPart (cs ++ rest) = signPart cs := by
  cases cs with
  | nil =>
    have hminus := h.head?_ne (c := '-') (by decide)
    have hplus := h.head?_ne (c := '+') (by decide)
    rw [List.nil_append]
    unfold signPart
    split <;> simp_all
  | cons c cs =>
    unfold signPart
    split <;> simp_all

theorem exponentPart_cons (c : Char) (cs : List Char) : exponentPart (c :: cs) =
    if c = 'e' || c = 'E' then
      let digits := (cs.drop (signPart cs).2).takeWhile isDigit
      if digits.isEmpty then none
      else some ((signPart cs).1, digits, 1 + (signPart cs).2 + digits.length)
    else none := rfl

theorem length_signPart_le (cs : List Char) : (signPart cs).2 ≤ cs.length := by
  unfold signPart
  split <;> simp

theorem exponentPart_append (h : EndsWord rest) :
    exponentPart (cs ++ rest) = exponentPart cs := by
  cases cs with
  | nil =>
    cases rest with
    | nil => rfl
    | cons c rest =>
      have hlower := h.head?_ne (c := 'e') (by decide)
      have hupper := h.head?_ne (c := 'E') (by decide)
      simp_all [exponentPart]
  | cons c cs =>
    rw [List.cons_append, exponentPart_cons, exponentPart_cons, signPart_append h,
      List.drop_append_of_le_length (length_signPart_le cs),
      takeWhile_append_of_head h.not_isDigit]

theorem length_wholePart_le (cs : List Char) : (wholePart cs).length ≤ cs.length := by
  unfold wholePart
  split
  · simp
  · exact (List.takeWhile_sublist _).length_le

theorem length_fractionPart_le (cs : List Char) :
    (if (fractionPart cs).isEmpty then 0 else (fractionPart cs).length + 1) ≤ cs.length := by
  unfold fractionPart
  split
  · rename_i tail
    have htake : (tail.takeWhile isDigit).length ≤ tail.length :=
      (List.takeWhile_sublist isDigit).length_le
    split_ifs <;> (simp; try omega)
  · simp

theorem length_exponentPart_le {down : Bool} {digits : List Char} {length : Nat}
    (h : exponentPart cs = some (down, digits, length)) : length ≤ cs.length := by
  cases cs with
  | nil => cases h
  | cons c cs =>
    have htake : ((cs.drop (signPart cs).2).takeWhile isDigit).length ≤
        (cs.drop (signPart cs).2).length := (List.takeWhile_sublist isDigit).length_le
    have hsign := length_signPart_le cs
    rw [List.length_drop] at htake
    rw [exponentPart_cons] at h
    dsimp only at h
    split_ifs at h
    obtain ⟨-, -, rfl⟩ := Prod.mk.injEq .. ▸ Prod.mk.injEq .. ▸ Option.some.inj h
    simp only [List.length_cons]
    omega

theorem readNumber_append (negative : Bool) (h : EndsWord rest) :
    readNumber negative (cs ++ rest) = readNumber negative cs := by
  rw [readNumber, readNumber]
  dsimp only
  rw [wholePart_append h, List.drop_append_of_le_length (length_wholePart_le cs),
    fractionPart_append h, List.drop_append_of_le_length (length_fractionPart_le _),
    exponentPart_append h]

/-- A number is no longer than the text, and no broken string. -/
theorem length_le_of_readNumber {negative : Bool} {token : Token} {n : Nat}
    (h : readNumber negative cs = some (token, n)) :
    n ≤ cs.length ∧ ∀ e, token ≠ .broken e := by
  have hwhole := length_wholePart_le cs
  have hfraction := length_fractionPart_le (cs.drop (wholePart cs).length)
  rw [List.length_drop] at hfraction
  rw [readNumber] at h
  dsimp only at h
  generalize (if (fractionPart (cs.drop (wholePart cs).length)).isEmpty then 0
    else (fractionPart (cs.drop (wholePart cs).length)).length + 1) = fraction at h hfraction
  have hexponent : ∀ down digits length, exponentPart ((cs.drop (wholePart cs).length).drop
      fraction) = some (down, digits, length) →
        length ≤ cs.length - (wholePart cs).length - fraction := by
    intro down digits length h
    have hle := length_exponentPart_le h
    rwa [List.length_drop, List.length_drop] at hle
  generalize exponentPart ((cs.drop (wholePart cs).length).drop fraction) = exponent at h hexponent
  split at h
  · cases h
  · split at h
    · split at h <;> (cases h; exact ⟨hwhole, by simp⟩)
    · cases h
      refine ⟨?_, by simp⟩
      rcases exponent with _ | ⟨down, digits, length⟩
      · simp only
        omega
      · have hle := hexponent down digits length rfl
        simp only
        omega

/-- A word of the language does not reach over the end of a word. -/
theorem prefix_append_iff_of_endsWord {word : List Char} (hword : ∀ c ∈ word, isWordChar c)
    (h : EndsWord rest) : word <+: cs ++ rest ↔ word <+: cs := by
  refine ⟨fun hahead => ?_, fun hahead => hahead.trans (List.prefix_append cs rest)⟩
  rcases List.prefix_or_prefix_of_prefix hahead (List.prefix_append cs rest) with hcs | hcs
  · exact hcs
  · obtain ⟨more, rfl⟩ := hcs
    have hmore := (List.prefix_append_right_inj cs).mp hahead
    cases more with
    | nil => simp
    | cons c more =>
      obtain ⟨tail, rfl⟩ := hmore
      have hc : isWordChar c = false := h c rfl
      rw [hword c (by simp)] at hc
      cases hc

theorem readWord_append (h : EndsWord rest) : readWord (cs ++ rest) = readWord cs := by
  have hsame : ∀ atom ∈ wordAtoms, (Text.dropStart? atom.1.toList (cs ++ rest)).isSome =
      (Text.dropStart? atom.1.toList cs).isSome := by
    intro atom hatom
    rw [Bool.eq_iff_iff, Text.isSome_dropStart?_iff, Text.isSome_dropStart?_iff]
    exact prefix_append_iff_of_endsWord (all_isWordChar_wordAtoms atom hatom) h
  rw [readWord, readWord]
  generalize wordAtoms = atoms at hsame ⊢
  induction atoms with
  | nil => rfl
  | cons atom atoms ih =>
    rw [List.findSome?_cons, List.findSome?_cons,
      ih fun atom hatom => hsame atom (by simp [hatom])]
    dsimp only
    rw [hsame atom (by simp)]

theorem length_le_of_readWord {token : Token} {n : Nat} (h : readWord cs = some (token, n)) :
    n ≤ cs.length ∧ ∀ e, token ≠ .broken e := by
  obtain ⟨⟨word, v⟩, -, h⟩ := List.exists_of_findSome?_eq_some h
  dsimp only at h
  split_ifs at h with hstart
  obtain ⟨rfl, rfl⟩ := Prod.mk.inj (Option.some.inj h)
  have hle := (Text.isSome_dropStart?_iff.mp hstart).length_le
  rw [String.length_toList] at hle
  exact ⟨hle, by simp⟩

/-- The number that begins with `c`, and its length. -/
def signedNumber (c : Char) (cs : List Char) : Option (Token × Nat) :=
  if c = '-' then (readNumber true cs).map fun ((token, n) : Token × Nat) => (token, n + 1)
  else readNumber false (c :: cs)

/-- The token of a word that begins with `c`, and its length. -/
def wordToken (c : Char) (cs : List Char) : Token × Nat :=
  (readWord (c :: cs)).getD ((signedNumber c cs).getD (.junk, 1))

theorem readToken_of_isWordChar {c : Char} (h : isWordChar c) (pos : Nat) (cs : List Char) :
    readToken pos c cs = wordToken c cs := by
  obtain ⟨hmark, hquote⟩ := not_mem_punctuation_of_isWordChar h
  simp only [punctuation, List.mem_cons, List.not_mem_nil, or_false, not_or] at hmark
  simp only [readToken, hmark, hquote, if_false, wordToken, signedNumber]
  cases readWord (c :: cs) <;> rfl

/-- **The token of a word** does not depend on what follows the word. -/
theorem wordToken_append (h : EndsWord rest) (c : Char) (cs : List Char) :
    wordToken c (cs ++ rest) = wordToken c cs := by
  rw [wordToken, wordToken, signedNumber, signedNumber, ← List.cons_append, readWord_append h,
    readNumber_append _ h, readNumber_append _ h]

theorem length_wordToken_le (c : Char) (cs : List Char) :
    (wordToken c cs).2 ≤ cs.length + 1 ∧ ∀ e, (wordToken c cs).1 ≠ .broken e := by
  rw [wordToken]
  cases hword : readWord (c :: cs) with
  | some found => exact length_le_of_readWord hword
  | none =>
    cases hnumber : signedNumber c cs with
    | none => simp
    | some found =>
      rw [signedNumber] at hnumber
      split_ifs at hnumber
      · obtain ⟨⟨token, n⟩, hread, rfl⟩ := Option.map_eq_some_iff.mp hnumber
        obtain ⟨hle, hbroken⟩ := length_le_of_readNumber hread
        exact ⟨Nat.succ_le_succ hle, hbroken⟩
      · exact length_le_of_readNumber hnumber

end Words

/-! ### Tokens -/

section Tokens

variable {pos : Nat} {c : Char} {cs rest : List Char}

theorem tokensFrom_space (h : isSpace c) : tokensFrom pos (c :: cs) = tokensFrom (pos + 1) cs := by
  rw [tokensFrom, if_pos h]

theorem tokensFrom_cons (h : isSpace c = false) {token : Token} {n : Nat}
    (htoken : readToken pos c cs = (token, n)) (hbroken : ∀ e, token ≠ .broken e) :
    tokensFrom pos (c :: cs) =
      ⟨token, pos⟩ :: tokensFrom (pos + 1 + (n - 1)) (cs.drop (n - 1)) := by
  rw [tokensFrom, if_neg (by simp [h]), htoken]
  cases token <;> first | rfl | exact absurd rfl (hbroken _)

/-- **What begins no lexeme** begins no token. -/
theorem readToken_eq_junk (h : ¬BeginsLexeme c) : readToken pos c cs = (.junk, 1) := by
  simp only [BeginsLexeme, not_or, Bool.not_eq_true] at h
  obtain ⟨hmark, hquote, hword⟩ := h
  have hends : EndsWord (c :: cs) := endsWord_cons_iff.mpr hword
  have hatom : readWord ([] ++ c :: cs) = none := readWord_append hends
  have hnumber : readNumber false ([] ++ c :: cs) = none := readNumber_append false hends
  have hminus : c ≠ '-' := by
    rintro rfl
    cases hword
  simp only [punctuation, List.mem_cons, List.not_mem_nil, or_false, not_or] at hmark
  rw [List.nil_append] at hatom hnumber
  simp [readToken, hmark, hquote, hatom, hminus, hnumber]

/-- The token of a punctuation character. -/
def markToken (c : Char) : Token :=
  if c = '\x7b' then .openBrace
  else if c = '\x7d' then .closeBrace
  else if c = '[' then .openBracket
  else if c = ']' then .closeBracket
  else if c = ':' then .colon
  else .comma

/-- **The token of a punctuation character.** -/
theorem tokensFrom_mark (h : c ∈ punctuation) :
    tokensFrom pos (c :: cs) = ⟨markToken c, pos⟩ :: tokensFrom (pos + 1) cs := by
  have hmark : ∀ c ∈ punctuation, isSpace c = false ∧
      (readToken pos c cs = (markToken c, 1) ∧ ∀ e, markToken c ≠ .broken e) := by
    simp [punctuation, readToken, markToken, isSpace]
  obtain ⟨hspace, htoken, hbroken⟩ := hmark c h
  exact tokensFrom_cons hspace htoken hbroken

/-- **The token of a string.** -/
theorem tokensFrom_string {body out : List Char} (h : Spells body out) :
    tokensFrom pos ('"' :: (body ++ '"' :: cs)) =
      ⟨.str (String.ofList out), pos⟩ :: tokensFrom (pos + (body.length + 2)) cs := by
  have htoken : readToken pos '"' (body ++ '"' :: cs) =
      (.str (String.ofList out), body.length + 2) := by
    have hread : readString pos (pos + 1) (body ++ '"' :: cs) =
        .ok (out, pos + 1 + body.length + 1) := readString_of_spells h (pos + 1) cs
    have hlength : pos + 1 + body.length + 1 - pos = body.length + 2 := by omega
    simp [readToken, hread, hlength]
  have hdrop : (body ++ '"' :: cs).drop (body.length + 2 - 1) = cs := by
    rw [List.append_cons, List.drop_left' (by simp)]
  have hpos : pos + 1 + (body.length + 2 - 1) = pos + (body.length + 2) := by omega
  rw [tokensFrom_cons (by decide) htoken (by simp), hdrop, hpos]

/-- A quote with no broken string behind it begins a string. -/
theorem exists_spells_of_tokensFrom
    (h : ∀ t ∈ tokensFrom pos ('"' :: cs), ∀ e, t.token ≠ .broken e) :
    ∃ body rest out, cs = body ++ '"' :: rest ∧ Spells body out := by
  cases hread : readString pos (pos + 1) cs with
  | ok out =>
    obtain ⟨body, rest, hcs, hspells, -⟩ := readString_eq_ok_iff.mp hread
    exact ⟨body, rest, _, hcs, hspells⟩
  | error e =>
    refine absurd rfl (h ⟨.broken e, pos⟩ ?_ e)
    have htoken : readToken pos '"' cs = (.broken e, 1) := by simp [readToken, hread]
    rw [tokensFrom, if_neg (by decide), htoken]
    exact List.mem_singleton_self _

/-- The first token of a word. -/
theorem tokensFrom_word_cons {w : List Char} (hc : isWordChar c) (hrest : EndsWord rest) :
    tokensFrom pos (c :: (w ++ rest)) = ⟨(wordToken c w).1, pos⟩ ::
      tokensFrom (pos + 1 + ((wordToken c w).2 - 1)) (w.drop ((wordToken c w).2 - 1) ++ rest) := by
  obtain ⟨hlength, hbroken⟩ := length_wordToken_le c w
  have htoken : readToken pos c (w ++ rest) = ((wordToken c w).1, (wordToken c w).2) :=
    (readToken_of_isWordChar hc pos (w ++ rest)).trans (wordToken_append hrest c w)
  rw [tokensFrom_cons (BeginsLexeme.isSpace_eq_false (.inr (.inr hc))) htoken hbroken,
    List.drop_append_of_le_length (by omega)]

/-- The first token of a word by itself. -/
theorem tokensFrom_word (pos : Nat) (w : List Char) (hc : isWordChar c) :
    tokensFrom pos (c :: w) = ⟨(wordToken c w).1, pos⟩ ::
      tokensFrom (pos + 1 + ((wordToken c w).2 - 1)) (w.drop ((wordToken c w).2 - 1)) := by
  have h := @tokensFrom_word_cons pos c [] w hc endsWord_nil
  rwa [List.append_nil, List.append_nil] at h

/-- **The tokens of a word** come first, and then those of what follows the word. -/
theorem tokensFrom_word_append (pos : Nat) {w : List Char} (hw : ∀ c ∈ w, isWordChar c)
    (hrest : EndsWord rest) :
    tokensFrom pos (w ++ rest) = tokensFrom pos w ++ tokensFrom (pos + w.length) rest := by
  induction hn : w.length using Nat.strongRecOn generalizing pos w with
  | ind n ih =>
    cases w with
    | nil => simp [← hn, tokensFrom]
    | cons c w =>
      -- what is left of the word behind its first token is a word again
      obtain ⟨hlength, -⟩ := length_wordToken_le c w
      have hc := hw c List.mem_cons_self
      have hrec := ih (w.drop ((wordToken c w).2 - 1)).length
        (by simp only [List.length_drop, List.length_cons] at hn ⊢; omega)
        (pos + 1 + ((wordToken c w).2 - 1))
        (fun d hd => hw d (List.mem_cons_of_mem c (List.mem_of_mem_drop hd))) rfl
      have hpos : pos + 1 + ((wordToken c w).2 - 1) + (w.drop ((wordToken c w).2 - 1)).length =
          pos + n := by
        simp only [List.length_drop, List.length_cons] at hn ⊢
        omega
      rw [List.cons_append, tokensFrom_word_cons hc hrest, hrec, hpos, tokensFrom_word pos w hc,
        List.cons_append]

/-- The tokens of a word are the same at every position. -/
theorem map_token_tokensFrom_word (pos pos' : Nat) {w : List Char}
    (hw : ∀ c ∈ w, isWordChar c) :
    (tokensFrom pos w).map Located.token = (tokensFrom pos' w).map Located.token := by
  induction hn : w.length using Nat.strongRecOn generalizing pos pos' w with
  | ind n ih =>
    cases w with
    | nil => simp [tokensFrom]
    | cons c w =>
      have hc := hw c List.mem_cons_self
      have hrec := fun p p' => ih (w.drop ((wordToken c w).2 - 1)).length
        (by simp only [List.length_drop, List.length_cons] at hn ⊢; omega) p p'
        (fun d hd => hw d (List.mem_cons_of_mem c (List.mem_of_mem_drop hd))) rfl
      rw [tokensFrom_word pos w hc, tokensFrom_word pos' w hc, List.map_cons, List.map_cons, hrec]

end Tokens

end TsProject.Json

import TsProject.Proofs.Json.Acceptance
import TsProject.Proofs.Json.Lexeme

/-!
# Space between lexemes

Space that is put between the lexemes of a text does not change what the text is read as
(`readChars_of_respaces`): its tokens stay the same, since each lexeme has its own, wherever it
stands and whatever follows it.
-/

namespace TsProject.Json

/-- **More space**: the second text has the lexemes of the first, in order, and all its space. -/
inductive Respaces : List Char → List Char → Prop
  | nil : Respaces [] []
  | space {c : Char} {cs ds : List Char} : isSpace c → Respaces cs ds →
      Respaces (c :: cs) (c :: ds)
  | lexeme {l cs ds : List Char} : IsLexeme cs l → Respaces cs ds → Respaces (l ++ cs) (l ++ ds)
  | put {c : Char} {cs ds : List Char} : isSpace c → Respaces cs ds → Respaces cs (c :: ds)

theorem isWordChar_eq_false_of_isSpace {c : Char} (h : isSpace c) : isWordChar c = false := by
  by_contra hword
  rw [BeginsLexeme.isSpace_eq_false (.inr (.inr (by simpa using hword)))] at h
  cases h

/-- A lexeme begins alike in front of any text. -/
theorem IsLexeme.endsWord_append_iff {l cs ds : List Char} (h : IsLexeme cs l) :
    EndsWord (l ++ cs) ↔ EndsWord (l ++ ds) := by
  obtain ⟨c, tail, rfl, -⟩ := h.exists_cons
  exact Iff.rfl

theorem Respaces.endsWord {cs ds : List Char} (h : Respaces cs ds) (hcs : EndsWord cs) :
    EndsWord ds := by
  cases h with
  | nil => exact hcs
  | space => exact hcs
  | lexeme hl => exact hl.endsWord_append_iff.mp hcs
  | put hc => exact endsWord_cons_iff.mpr (isWordChar_eq_false_of_isSpace hc)

/-! ### Clean texts -/

variable {pos : Nat} {l cs ds : List Char}

theorem IsClean.of_append {ts ts' : List Located} (h : IsClean (ts ++ ts')) : IsClean ts' where
  noJunk t ht := h.noJunk t (List.mem_append_right _ ht)
  noBroken t ht := h.noBroken t (List.mem_append_right _ ht)
  noTrailing := (List.isChain_append.mp h.noTrailing).2.1

/-- **The tokens of a lexeme** in a clean text are its own, at every position and in front of
every text that it can stand in front of. -/
theorem exists_tokens_of_isLexeme (hl : IsLexeme cs l)
    (hclean : IsClean (tokensFrom pos (l ++ cs))) :
    ∃ own : Nat → List Located, (∀ pos pos', (own pos).map Located.token =
      (own pos').map Located.token) ∧
      ∀ pos ds, (EndsWord cs → EndsWord ds) →
        tokensFrom pos (l ++ ds) = own pos ++ tokensFrom (pos + l.length) ds := by
  cases hl with
  | @mark c hc => exact ⟨fun pos => [⟨markToken c, pos⟩], fun _ _ => rfl,
      fun pos ds _ => tokensFrom_mark hc⟩
  | @string body hbody =>
    have hread : ∀ ds, '"' :: (body ++ ['"']) ++ ds = '"' :: (body ++ '"' :: ds) := by simp
    rw [hread] at hclean
    obtain ⟨body', rest, out, heq, hspells⟩ := exists_spells_of_tokensFrom hclean.noBroken
    obtain ⟨rfl, -⟩ := hbody.unique hspells.isBody heq
    refine ⟨fun pos => [⟨.str (String.ofList out), pos⟩], fun _ _ => rfl, fun pos ds _ => ?_⟩
    rw [hread, tokensFrom_string hspells]
    simp
  | word _ hw hends => exact ⟨fun pos => tokensFrom pos l,
      fun pos pos' => map_token_tokensFrom_word pos pos' hw,
      fun pos ds hds => tokensFrom_word_append pos hw (hds hends)⟩

/-- What follows a lexeme of a clean text is clean. -/
theorem isClean_of_lexeme (hl : IsLexeme cs l) (hclean : IsClean (tokensFrom pos (l ++ cs))) :
    IsClean (tokensFrom (pos + l.length) cs) := by
  obtain ⟨own, -, hown⟩ := exists_tokens_of_isLexeme hl hclean
  rw [hown pos cs id] at hclean
  exact hclean.of_append

/-- **Space does not change tokens.** -/
theorem map_token_of_respaces (h : Respaces cs ds) (hclean : IsClean (tokensFrom pos cs))
    (pos' : Nat) : (tokensFrom pos cs).map Located.token =
      (tokensFrom pos' ds).map Located.token := by
  induction h generalizing pos pos' with
  | nil => simp [tokensFrom]
  | space hc _ ih =>
    rw [tokensFrom_space hc] at hclean ⊢
    rw [tokensFrom_space hc]
    exact ih hclean _
  | lexeme hl hrest ih =>
    obtain ⟨own, hsame, hown⟩ := exists_tokens_of_isLexeme hl hclean
    rw [hown pos _ id, hown pos' _ hrest.endsWord, List.map_append, List.map_append,
      hsame pos pos', ih (isClean_of_lexeme hl hclean)]
  | put hc _ ih =>
    rw [tokensFrom_space hc]
    exact ih hclean _

/-- **Space does not change what is read.** -/
theorem readChars_of_respaces {v : Json} (h : Respaces cs ds) (hread : readChars cs = .ok v) :
    readChars ds = .ok v := by
  rw [readChars_eq_ok_iff] at hread ⊢
  exact run_of_map_token (map_token_of_respaces h (isClean_of_run hread) 0) hread

end TsProject.Json

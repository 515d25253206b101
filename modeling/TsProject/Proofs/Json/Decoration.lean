import Mathlib.Data.List.TakeWhile
import TsProject.Proofs.Json.Comments
import TsProject.Proofs.Json.Spacing

/-!
# Decorated texts

A decoration of a text puts fillers between its lexemes, and one comma behind the last element of
any of its lists and objects that are not empty (`Decorates`). Stripping it leaves the text with
more space (`respaces_of_decorates`), so that it is read as the text itself is, behind any number
of byte order marks (`readRelaxed_of_decorates`).
-/

namespace TsProject.Json

/-- The next character that is no space closes a list or an object. -/
def ClosesNext (cs : List Char) : Prop :=
  ∃ c ∈ (cs.dropWhile isSpace).head?, c = ']' ∨ c = '\x7d'

/-- The lexeme may end an element or a member: it opens nothing, and more need not follow. -/
def endsItem (l : List Char) : Bool := l ∉ [['\x7b'], ['['], [':'], [',']]

/-- **Decoration**: the second text is the first with fillers between its lexemes and with commas
in front of closing brackets, one behind a last element at the most. `item` tells whether an
element or a member may have just ended, with no comma behind it yet. -/
inductive Decorates : (item : Bool) → List Char → List Char → Prop
  | nil {item : Bool} : Decorates item [] []
  | space {item : Bool} {c : Char} {cs ds : List Char} : isSpace c → Decorates item cs ds →
      Decorates item (c :: cs) (c :: ds)
  | lexeme {item : Bool} {l cs ds : List Char} : IsLexeme cs l → Decorates (endsItem l) cs ds →
      Decorates item (l ++ cs) (l ++ ds)
  | filler {item : Bool} {f cs ds : List Char} : IsFiller f → Decorates item cs ds →
      Decorates item cs (f ++ ds)
  | comma {cs ds : List Char} : ClosesNext cs → Decorates false cs ds →
      Decorates true cs (',' :: ds)

variable {item : Bool} {pos : Nat} {c : Char} {l cs ds : List Char} {v : Json}

/-! ### What comes next -/

/-- In front of a lexeme there is nothing to skip. -/
theorem IsLexeme.head?_dropWhile (h : IsLexeme cs l) :
    ((l ++ cs).dropWhile isSpace).head? = l.head? := by
  obtain ⟨c, tail, rfl, hc⟩ := h.exists_cons
  rw [List.cons_append, List.dropWhile_cons_of_neg (by simp [hc.isSpace_eq_false])]
  rfl

theorem closes_head?_iff : closes (cs.dropWhile isSpace).head? ↔ ClosesNext cs := by
  cases h : (cs.dropWhile isSpace).head? with
  | none => simp [closes, ClosesNext, h]
  | some c => simp [closes, ClosesNext, h, or_comm]

/-- What closes next is the next token. -/
theorem exists_tokensFrom_of_closesNext (h : ClosesNext cs) (pos : Nat) :
    ∃ t ts, tokensFrom pos cs = t :: ts ∧ t.token.Closes := by
  induction cs generalizing pos with
  | nil => simp [ClosesNext] at h
  | cons c cs ih =>
    by_cases hspace : isSpace c
    · rw [ClosesNext, List.dropWhile_cons_of_pos hspace] at h
      rw [tokensFrom_space hspace]
      exact ih h _
    · rw [ClosesNext, List.dropWhile_cons_of_neg hspace] at h
      obtain ⟨d, hd, h⟩ := h
      obtain rfl := Option.some.inj hd
      rcases h with rfl | rfl
      · exact ⟨_, _, tokensFrom_mark (by decide), .inr rfl⟩
      · exact ⟨_, _, tokensFrom_mark (by decide), .inl rfl⟩

/-- A clean text has no comma in front of what closes. -/
theorem not_closesNext_of_isClean (hclean : IsClean (tokensFrom pos (',' :: cs))) :
    ¬ClosesNext cs := by
  intro hcloses
  obtain ⟨t, ts, htokens, ht⟩ := exists_tokensFrom_of_closesNext hcloses (pos + 1)
  have hchain := hclean.noTrailing
  rw [tokensFrom_mark (by decide), htokens] at hchain
  exact (List.isChain_cons_cons.mp hchain).1 rfl ht

/-! ### Stripping a decorated text -/

theorem Respaces.append_spaces {spaces : List Char} (hspaces : ∀ c ∈ spaces, isSpace c)
    (h : Respaces cs ds) : Respaces cs (spaces ++ ds) := by
  induction spaces with
  | nil => exact h
  | cons c spaces ih =>
    exact .put (hspaces c List.mem_cons_self) (ih fun d hd => hspaces d (List.mem_cons_of_mem c hd))

/-- What comes next in a decorated text is what comes next in the text, or else a comma that was
added. -/
def NextOf (item : Bool) (cs : List Char) (next : Option Char) : Prop :=
  next = (cs.dropWhile isSpace).head? ∨ item = true ∧ ClosesNext cs ∧ next = some ','

/-- Where no comma can have been added, what closes next in the decorated text closes next in the
text. -/
theorem NextOf.closes_iff {next : Option Char} (h : NextOf false cs next) :
    closes next ↔ ClosesNext cs := by
  rcases h with rfl | ⟨hitem, -⟩
  · exact closes_head?_iff
  · cases hitem

/-- **Stripping undoes decoration** up to space: the fillers leave spaces, the added commas are
blanked, and those of the text are not. -/
theorem respaces_of_decorates (h : Decorates item cs ds) (hclean : IsClean (tokensFrom pos cs)) :
    Respaces cs (stripFrom ds).1 ∧ NextOf item cs (stripFrom ds).2 := by
  induction h generalizing pos with
  | nil => exact ⟨.nil, .inl rfl⟩
  | @space item c cs ds hc _ ih =>
    rw [tokensFrom_space hc] at hclean
    obtain ⟨hrespaces, hnext⟩ := ih hclean
    rw [stripFrom_space hc]
    rw [NextOf, ClosesNext, List.dropWhile_cons_of_pos hc]
    exact ⟨.space hc hrespaces, hnext⟩
  | @lexeme item l cs ds hl _ ih =>
    obtain ⟨hrespaces, hnext⟩ := ih (isClean_of_lexeme hl hclean)
    by_cases hcomma : l = [',']
    · -- a comma of the text: nothing closes behind it, and none was added there
      subst hcomma
      have hkept : closes (stripFrom ds).2 = false := Bool.eq_false_iff.mpr fun hcloses =>
        not_closesNext_of_isClean hclean ((NextOf.closes_iff hnext).mp hcloses)
      rw [List.singleton_append, List.singleton_append, stripFrom_comma, hkept]
      exact ⟨.lexeme hl hrespaces, .inl hl.head?_dropWhile.symm⟩
    · rw [stripFrom_lexeme hl hcomma]
      exact ⟨.lexeme hl hrespaces, .inl hl.head?_dropWhile.symm⟩
  | filler hf _ ih =>
    obtain ⟨hrespaces, hnext⟩ := ih hclean
    obtain ⟨spaces, hspaces, hstrip⟩ := exists_stripFrom_filler hf
    rw [hstrip]
    exact ⟨hrespaces.append_spaces hspaces, hnext⟩
  | @comma cs ds hcloses _ ih =>
    obtain ⟨hrespaces, hnext⟩ := ih hclean
    have hblanked : closes (stripFrom ds).2 := hnext.closes_iff.mpr hcloses
    rw [stripFrom_comma, hblanked]
    exact ⟨.put (by decide) hrespaces, .inr ⟨rfl, hcloses, rfl⟩⟩

/-! ### The lexemes of a clean text -/

/-- A clean text begins with space or with a lexeme. -/
theorem exists_isLexeme_of_isClean (hclean : IsClean (tokensFrom pos (c :: cs)))
    (hspace : isSpace c = false) : ∃ l rest, c :: cs = l ++ rest ∧ IsLexeme rest l := by
  by_cases hbegins : BeginsLexeme c
  · rcases hbegins with hmark | rfl | hword
    · exact ⟨[c], cs, rfl, .mark hmark⟩
    · obtain ⟨body, rest, out, rfl, hspells⟩ := exists_spells_of_tokensFrom hclean.noBroken
      exact ⟨'"' :: (body ++ ['"']), rest, by simp, .string hspells.isBody⟩
    · refine ⟨(c :: cs).takeWhile isWordChar, (c :: cs).dropWhile isWordChar,
        List.takeWhile_append_dropWhile.symm, .word ?_ (fun d hd => List.mem_takeWhile_imp hd) ?_⟩
      · simp [hword]
      · intro d hd
        have hnot := List.head?_dropWhile_not isWordChar (c :: cs)
        rwa [Option.mem_def.mp hd] at hnot
  · refine absurd rfl (hclean.noJunk ⟨.junk, pos⟩ ?_)
    rw [tokensFrom_cons hspace (readToken_eq_junk hbegins) (by simp)]
    exact List.mem_cons_self

/-- **No decoration** is a decoration. -/
theorem decorates_self (item : Bool) (hclean : IsClean (tokensFrom pos cs)) :
    Decorates item cs cs := by
  induction hn : cs.length using Nat.strongRecOn generalizing pos cs item with
  | ind n ih =>
    cases cs with
    | nil => exact .nil
    | cons c cs =>
      cases hspace : isSpace c with
      | true =>
        rw [tokensFrom_space hspace] at hclean
        exact .space hspace (ih cs.length (by simp [← hn]) item hclean rfl)
      | false =>
        obtain ⟨l, rest, heq, hl⟩ := exists_isLexeme_of_isClean hclean hspace
        have hlength : rest.length < n := by
          obtain ⟨d, tail, rfl, -⟩ := hl.exists_cons
          rw [← hn, heq, List.length_append, List.length_cons]
          omega
        rw [heq] at hclean ⊢
        exact .lexeme hl (ih rest.length hlength _ (isClean_of_lexeme hl hclean) rfl)

/-- A clean text of blanks has no tokens. -/
theorem tokensFrom_of_isBlank (hclean : IsClean (tokensFrom pos cs))
    (hblank : ∀ c ∈ cs, Text.isBlank c) : tokensFrom pos cs = [] := by
  induction cs generalizing pos with
  | nil => simp [tokensFrom]
  | cons c cs ih =>
    cases hspace : isSpace c with
    | true =>
      rw [tokensFrom_space hspace] at hclean ⊢
      exact ih hclean fun d hd => hblank d (List.mem_cons_of_mem c hd)
    | false =>
      obtain ⟨l, rest, heq, hl⟩ := exists_isLexeme_of_isClean hclean hspace
      obtain ⟨d, tail, rfl, hd⟩ := hl.exists_cons
      obtain rfl := (List.cons.inj heq).1
      have hfirst := hblank c List.mem_cons_self
      rw [hd.isSolid.1] at hfirst
      cases hfirst

/-- A text that is read is not blank. -/
theorem not_all_isBlank_of_readChars (h : readChars cs = .ok v) : ¬cs.all Text.isBlank := by
  intro hblank
  rw [readChars_eq_ok_iff] at h
  have htokens : tokens cs = [] :=
    tokensFrom_of_isBlank (isClean_of_run h) (by simpa using hblank)
  rw [htokens] at h
  cases h

/-! ### Reading -/

/-- A decorated text begins with no byte order mark. -/
theorem Decorates.head?_ne (h : Decorates item cs ds) : ds.head? ≠ some '\ufeff' := by
  cases h with
  | nil => simp
  | space hc =>
    rintro h
    obtain rfl := Option.some.inj h
    cases hc
  | lexeme hl =>
    obtain ⟨c, tail, rfl, hc⟩ := hl.exists_cons
    simpa using hc.isSolid.2.2
  | filler hf =>
    cases hf with
    | space hc =>
      intro h
      obtain rfl := Option.some.inj h
      cases hc
    | line => simp
    | block => simp
  | comma => simp

theorem dropMarks_replicate_append (n : Nat) (h : ds.head? ≠ some '\ufeff') :
    dropMarks (List.replicate n '\ufeff' ++ ds) = ds := by
  have hmarks : ∀ c ∈ List.replicate n '\ufeff', decide (c = '\ufeff') = true := by simp
  rw [dropMarks, List.dropWhile_append_of_pos hmarks]
  cases ds with
  | nil => rfl
  | cons c ds => exact List.dropWhile_cons_of_neg (by simpa using h)

theorem readRelaxedChars_of_decorates (hread : readChars cs = .ok v)
    (h : Decorates false cs ds) (n : Nat) :
    readRelaxedChars (List.replicate n '\ufeff' ++ ds) = .ok v := by
  have hclean := isClean_of_run (readChars_eq_ok_iff.mp hread)
  have hstripped : readChars (stripChars ds) = .ok v :=
    readChars_of_respaces (respaces_of_decorates h hclean).1 hread
  rw [readRelaxedChars, dropMarks_replicate_append n h.head?_ne,
    if_neg (not_all_isBlank_of_readChars hstripped), hstripped]

/-- **Reading undoes decoration**: a text that is read is read as the same value with comments
allowed, and so is every decoration of it behind any number of byte order marks. -/
theorem readRelaxed_of_decorates {j : String} (h : read j = .ok v) :
    readRelaxed j = .ok v ∧ ∀ (n : Nat) (t : String), Decorates false j.toList t.toList →
      readRelaxed (String.ofList (List.replicate n '\ufeff') ++ t) = .ok v := by
  have hdecorated : ∀ (n : Nat) (t : String), Decorates false j.toList t.toList →
      readRelaxed (String.ofList (List.replicate n '\ufeff') ++ t) = .ok v := by
    intro n t ht
    rw [readRelaxed, String.toList_append, String.toList_ofList]
    exact readRelaxedChars_of_decorates h ht n
  refine ⟨?_, hdecorated⟩
  have hself : Decorates false j.toList j.toList :=
    decorates_self false (isClean_of_run (readChars_eq_ok_iff.mp h))
  simpa using hdecorated 0 j hself

/-- Markers and quotes in comments and strings do not matter. -/
theorem readRelaxed_markersInside : ∃ v, read "[\"//\\\",]\",1]" = .ok v ∧
    readRelaxed (String.ofList (List.replicate 2 '\ufeff') ++
      "/*,\"*/[\"//\\\",]\", 1 ,//]\"\n]") = .ok v := by
  have hisRead : (read "[\"//\\\",]\",1]").toOption.isSome := by decide +kernel
  have hquoted : IsBody ['/', '/', '\\', '"', ',', ']'] :=
    .plain (by decide) (by decide) (.plain (by decide) (by decide)
      (.escape (.plain (by decide) (by decide) (.plain (by decide) (by decide) .nil))))
  have hdecorated : Decorates false
      ['[', '"', '/', '/', '\\', '"', ',', ']', '"', ',', '1', ']']
      "/*,\"*/[\"//\\\",]\", 1 ,//]\"\n]".toList := by
    refine .filler (.block (by decide : ¬['*', '/'] <:+: [',', '"'])) ?_
    refine .lexeme (.mark (by decide : '[' ∈ punctuation)) ?_
    refine .lexeme (.string hquoted) ?_
    refine .lexeme (.mark (by decide : ',' ∈ punctuation)) ?_
    refine .filler (.space (by decide : isSpace ' ')) ?_
    refine .lexeme (.word (w := ['1']) (by decide) (List.forall_mem_singleton.mpr (by decide))
      (endsWord_cons_iff.mpr (by decide))) ?_
    refine .filler (.space (by decide : isSpace ' ')) ?_
    refine .comma ⟨']', rfl, .inl rfl⟩ ?_
    refine .filler (.line (by decide : '\n' ∉ [']', '"'])) ?_
    exact .lexeme (.mark (by decide : ']' ∈ punctuation)) .nil
  cases hread : read "[\"//\\\",]\",1]" with
  | error e =>
    rw [hread] at hisRead
    cases hisRead
  | ok v => exact ⟨v, rfl, (readRelaxed_of_decorates hread).2 2 _ hdecorated⟩

end TsProject.Json

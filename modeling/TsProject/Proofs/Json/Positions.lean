import TsProject.Json.Parser
import TsProject.Proofs.Json.Lexeme

/-!
# Positions of errors

What is wrong with a text is wrong at one of its positions, the position behind its last character
included: `position_le_of_readChars`. Line and column of a position depend on the line feeds in
front of it only, and so they are those of any text with the line feeds at the same positions:
`lineAndColumn_congr`.
-/

namespace TsProject.Json

variable {cs ds : List Char} {start pos : Nat} {e : SyntaxError}

/-! ### Strings -/

theorem eq_error_of_map {α β : Type} {x : Except SyntaxError α} {f : α → β}
    (h : x.map f = .error e) : x = .error e := by
  cases x with
  | error e' => exact congrArg Except.error (Except.error.inj h)
  | ok a => cases h

/-- What is wrong with a string is wrong at its start or further on. -/
theorem position_le_of_readString (h : readString start pos cs = .error e) :
    e.position ≤ max start (pos + cs.length) := by
  have hstops : ∀ {kind : SyntaxErrorKind} {position bound : Nat},
      (Except.error ⟨kind, position⟩ : Except SyntaxError (List Char × Nat)) = .error e →
        position ≤ bound → e.position ≤ bound := by
    intro kind position bound heq hle
    obtain rfl := Except.error.inj heq
    exact hle
  fun_induction readString start pos cs
  case case2 => cases h
  -- the reader stops at a character that it has
  case case1 => exact hstops h (by omega)
  case case3 | case4 | case5 | case9 | case11 | case12 | case14 =>
    exact hstops h (by simp only [List.length_cons]; omega)
  -- the reader goes on behind some characters that it has
  case case6 ih | case7 ih | case8 ih | case10 ih | case13 ih | case15 ih =>
    exact Nat.le_trans (ih (eq_error_of_map h)) (by simp only [List.length_cons]; omega)

/-! ### Tokens -/

/-- A token is no longer than the text, and what is wrong with it is in the text. -/
theorem readToken_bounds (pos : Nat) (c : Char) (cs : List Char) :
    (readToken pos c cs).2 ≤ cs.length + 1 ∧
      ∀ e, (readToken pos c cs).1 = .broken e → e.position ≤ pos + (cs.length + 1) := by
  by_cases hbegins : BeginsLexeme c
  · rcases hbegins with hmark | rfl | hword
    · have hmarks : ∀ c ∈ punctuation, (readToken pos c cs).2 = 1 ∧
          ∀ e, (readToken pos c cs).1 ≠ .broken e := by
        simp [punctuation, readToken]
      obtain ⟨hlength, hbroken⟩ := hmarks c hmark
      exact ⟨by omega, fun e he => absurd he (hbroken e)⟩
    · cases hread : readString pos (pos + 1) cs with
      | ok out =>
        obtain ⟨body, rest, rfl, -, hstop⟩ := readString_eq_ok_iff.mp hread
        have htoken : readToken pos '"' (body ++ '"' :: rest) =
            (.str (String.ofList out.1), out.2 - pos) := by simp [readToken, hread]
        rw [htoken]
        refine ⟨?_, fun e he => by cases he⟩
        simp only [hstop, List.length_append, List.length_cons]
        omega
      | error e =>
        have htoken : readToken pos '"' cs = (.broken e, 1) := by simp [readToken, hread]
        have hposition := position_le_of_readString hread
        rw [htoken]
        refine ⟨by simp, fun e' he' => ?_⟩
        obtain rfl := Token.broken.inj he'
        omega
    · obtain ⟨hlength, hbroken⟩ := length_wordToken_le c cs
      rw [readToken_of_isWordChar hword]
      exact ⟨hlength, fun e he => absurd he (hbroken e)⟩
  · rw [readToken_eq_junk hbegins]
    exact ⟨by simp, fun e he => by cases he⟩

/-- **Tokens stand in the text**, and so does what is wrong with them. -/
theorem position_le_of_mem_tokensFrom {t : Located} (ht : t ∈ tokensFrom pos cs) :
    t.position ≤ pos + cs.length ∧ ∀ e, t.token = .broken e → e.position ≤ pos + cs.length := by
  fun_induction tokensFrom pos cs with
  | case1 pos => cases ht
  | case2 pos c rest hspace ih =>
    obtain ⟨hposition, hbroken⟩ := ih ht
    rw [List.length_cons]
    exact ⟨by omega, fun e he => Nat.le_trans (hbroken e he) (by omega)⟩
  | case3 pos c rest hspace e n htoken =>
    have hbroken := (readToken_bounds pos c rest).2 e (by rw [htoken])
    obtain rfl := List.mem_singleton.mp ht
    refine ⟨Nat.le_add_right pos _, fun e' he' => ?_⟩
    obtain rfl := Token.broken.inj he'
    exact hbroken
  | case4 pos c rest hspace token n hnot htoken ih =>
    have hlength := (readToken_bounds pos c rest).1
    rw [htoken] at hlength
    rcases List.mem_cons.mp ht with rfl | ht
    · exact ⟨Nat.le_add_right pos _, fun e he => absurd he (hnot e)⟩
    · obtain ⟨hposition, hbroken⟩ := ih ht
      have hstop : pos + 1 + (n - 1) + (rest.drop (n - 1)).length ≤ pos + (c :: rest).length := by
        rw [List.length_drop, List.length_cons]
        dsimp only at hlength
        omega
      exact ⟨Nat.le_trans hposition hstop, fun e he => Nat.le_trans (hbroken e he) hstop⟩

/-! ### Reading -/

/-- A step fails at its token. -/
theorem position_of_step {state : State} {t : Located} (h : step state t = .error (.badSyntax e)) :
    e.position = t.position ∨ t.token = .broken e := by
  obtain ⟨token, position⟩ := t
  cases state <;> cases token <;> cases h <;> first | exact .inl rfl | exact .inr rfl

/-- A run fails at one of its tokens. -/
theorem exists_of_run {state : State} {ts : List Located}
    (h : run state ts = .error (.badSyntax e)) :
    ∃ t ∈ ts, e.position = t.position ∨ t.token = .broken e := by
  induction ts generalizing state with
  | nil => cases h
  | cons t ts ih =>
    rw [run] at h
    cases hstep : step state t with
    | error found =>
      rw [hstep] at h
      obtain rfl : found = .badSyntax e := Except.error.inj h
      exact ⟨t, List.mem_cons_self, position_of_step hstep⟩
    | ok next =>
      rw [hstep] at h
      obtain ⟨t', hmem, hposition⟩ := ih h
      exact ⟨t', List.mem_cons_of_mem t hmem, hposition⟩

/-- **Errors are in the text.** -/
theorem position_le_of_readChars (h : readChars cs = .error (.badSyntax e)) :
    e.position ≤ cs.length := by
  rw [readChars] at h
  cases hrun : run (.value []) (tokens cs) with
  | error found =>
    rw [hrun] at h
    obtain rfl : found = .badSyntax e := Except.error.inj h
    obtain ⟨t, hmem, hposition⟩ := exists_of_run hrun
    obtain ⟨hle, hbroken⟩ := position_le_of_mem_tokensFrom hmem
    rcases hposition with hposition | hposition
    · omega
    · have hle := hbroken e hposition
      omega
  | ok state =>
    -- the text ends too early
    rw [hrun] at h
    cases state <;> cases h <;> exact Nat.le_refl _

/-! ### Lines and columns -/

/-- **Line feeds at the same positions** make for the same lines and columns. -/
theorem lineAndColumn_congr (h : cs.map (· == '\n') = ds.map (· == '\n')) (position : Nat) :
    lineAndColumn cs position = lineAndColumn ds position := by
  have hbefore : (cs.take position).map (· == '\n') = (ds.take position).map (· == '\n') := by
    rw [List.map_take, List.map_take, h]
  have hcount : ∀ xs : List Char, xs.count '\n' = (xs.map (· == '\n')).count true := by
    intro xs
    rw [List.count, List.count, List.countP_map]
    congr
    funext c
    simp
  have hcolumn : ∀ xs : List Char, (xs.reverse.takeWhile (· ≠ '\n')).length =
      ((xs.map (· == '\n')).reverse.takeWhile (! ·)).length := by
    intro xs
    rw [← List.map_reverse, List.takeWhile_map, List.length_map]
    congr
    funext c
    by_cases hc : c = '\n' <;> simp [hc]
  rw [lineAndColumn, lineAndColumn, hcount, hcount, hcolumn, hcolumn, hbefore]

end TsProject.Json

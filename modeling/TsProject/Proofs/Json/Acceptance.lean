import Mathlib.Data.List.Chain
import TsProject.Json.Parser

/-!
# Accepted tokens

What a text is read as depends on its tokens alone, not on where they stand (`run_of_map_token`),
and tokens that are read hold nothing that begins no token, no broken string and no comma in
front of a closing bracket (`IsClean`, `isClean_of_run`).
-/

namespace TsProject.Json

/-- **A text is read** when its tokens lead to the end of a value. -/
theorem readChars_eq_ok_iff {cs : List Char} {v : Json} :
    readChars cs = .ok v ↔ run (.value []) (tokens cs) = .ok (.done v) := by
  rw [readChars]
  cases run (.value []) (tokens cs) with
  | error e => simp [bind, Except.bind]
  | ok state => cases state <;> simp [bind, Except.bind, finish]

/-- A step that is taken is taken at every position. -/
theorem step_of_step {state next : State} {token : Token} {pos : Nat}
    (h : step state ⟨token, pos⟩ = .ok next) (pos' : Nat) :
    step state ⟨token, pos'⟩ = .ok next := by
  cases state <;> cases token <;> first | exact h | cases h

/-- **Positions do not matter** to what is read. -/
theorem run_of_map_token {state final : State} {ts ts' : List Located}
    (hsame : ts.map Located.token = ts'.map Located.token) (h : run state ts = .ok final) :
    run state ts' = .ok final := by
  induction ts generalizing state ts' with
  | nil =>
    obtain rfl : ts' = [] := by simpa using hsame.symm
    exact h
  | cons t ts ih =>
    cases ts' with
    | nil => simp at hsame
    | cons t' ts' =>
      obtain ⟨htoken, hrest⟩ := List.cons.inj hsame
      rw [run] at h ⊢
      cases hstep : step state t with
      | error e => simp [hstep, bind, Except.bind] at h
      | ok next =>
        obtain ⟨token, pos⟩ := t
        obtain ⟨token', pos'⟩ := t'
        obtain rfl : token = token' := htoken
        rw [hstep] at h
        rw [step_of_step hstep pos']
        exact ih hrest h

/-- The token closes a list or an object. -/
def Token.Closes (t : Token) : Prop := t = .closeBrace ∨ t = .closeBracket

/-- **Clean tokens**: all are well formed, and no comma stands in front of a closing bracket. -/
structure IsClean (ts : List Located) : Prop where
  noJunk : ∀ t ∈ ts, t.token ≠ .junk
  noBroken : ∀ t ∈ ts, ∀ e, t.token ≠ .broken e
  noTrailing : ts.IsChain fun t next => t.token = .comma → ¬next.token.Closes

/-- No token that is not well formed is read. -/
theorem step_junk (state : State) (pos : Nat) : ∃ e, step state ⟨.junk, pos⟩ = .error e := by
  cases state <;> exact ⟨_, rfl⟩

theorem step_broken (state : State) (pos : Nat) (error : SyntaxError) :
    ∃ e, step state ⟨.broken error, pos⟩ = .error e := by
  cases state <;> exact ⟨_, rfl⟩

/-- Behind a comma nothing is closed. -/
theorem step_closes_of_step_comma {state next : State} {pos : Nat}
    (h : step state ⟨.comma, pos⟩ = .ok next) {t : Located} (ht : t.token.Closes) :
    ∃ e, step next t = .error e := by
  obtain ⟨token, pos'⟩ := t
  cases state <;> cases h <;> rcases ht with ht | ht <;> cases ht <;> exact ⟨_, rfl⟩

/-- **Tokens that are read are clean.** -/
theorem isClean_of_run {state final : State} {ts : List Located} (h : run state ts = .ok final) :
    IsClean ts := by
  induction ts generalizing state with
  | nil => exact ⟨by simp, by simp, List.isChain_nil⟩
  | cons t ts ih =>
    rw [run] at h
    cases hstep : step state t with
    | error e => simp [hstep, bind, Except.bind] at h
    | ok next =>
      rw [hstep] at h
      obtain ⟨hjunk, hbroken, hchain⟩ := ih h
      obtain ⟨token, pos⟩ := t
      refine ⟨?_, ?_, ?_⟩
      · rw [List.forall_mem_cons]
        refine ⟨?_, hjunk⟩
        rintro rfl
        obtain ⟨e, he⟩ := step_junk state pos
        cases hstep.symm.trans he
      · rw [List.forall_mem_cons]
        refine ⟨?_, hbroken⟩
        rintro error rfl
        obtain ⟨e, he⟩ := step_broken state pos error
        cases hstep.symm.trans he
      · cases ts with
        | nil => exact List.isChain_singleton _
        | cons t ts =>
          refine List.isChain_cons_cons.mpr ⟨?_, hchain⟩
          rintro rfl hcloses
          obtain ⟨e, he⟩ := step_closes_of_step_comma hstep hcloses
          simp [run, bind, Except.bind, he] at h

end TsProject.Json

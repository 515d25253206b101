import TsProject.Proofs.Diagnostic.Head

/-!
# Which outputs can be read

The output of the compiler can hold anything, and every line of it that is no diagnostic is kept
as it stands. All that cannot be read is a diagnostic with a number that has too many digits:
an output without such runs of digits (`HasShortRuns`) is always read, `exists_parse`.
-/

namespace TsProject

open Text (IsNumeral)

/-- **No run of digits is too long** to be read as a number. -/
def HasShortRuns (cs : List Char) : Prop :=
  ∀ run, IsNumeral run → run <:+: cs → run.length ≤ Json.maxDigits

theorem HasShortRuns.mono {cs ds : List Char} (h : HasShortRuns ds) (hwithin : cs <:+: ds) :
    HasShortRuns cs := fun run hrun hin => h run hrun (hin.trans hwithin)

theorem HasShortRuns.exists_number {cs run : List Char} (h : HasShortRuns cs)
    (hrun : IsNumeral run) (hin : run <:+: cs) : ∃ n, Head.number run = .ok n := by
  rw [Head.number, if_neg (Nat.not_lt.mpr (h run hrun hin))]
  exact ⟨_, rfl⟩

/-- A character that does not begin a pair of breaks stands for itself. -/
theorem Text.linesFrom_of_not_pair {c : Char} {line rest : List Char}
    (h : ∀ after, c = '\r' → rest = '\n' :: after → False) :
    linesFrom line (c :: rest) =
      if isLineBreak c then line.reverse :: linesFrom [] rest else linesFrom (c :: line) rest := by
  rw [linesFrom.eq_def]
  split
  · rename_i hnil
    cases hnil
  · rename_i hpair
    obtain ⟨hc, hrest⟩ := List.cons.inj hpair
    exact absurd hrest (h _ hc)
  · rename_i hcons
    obtain ⟨rfl, rfl⟩ := List.cons.inj hcons
    rfl

/-- Every line of a text is a part of it. -/
theorem Text.infix_of_mem_linesFrom {line cs part : List Char} (h : part ∈ linesFrom line cs) :
    part <:+: line.reverse ++ cs := by
  -- a line that a break ends is the first part of the text, the others come behind it
  have hbroken : ∀ (line broken rest : List Char), part ∈ line.reverse :: linesFrom [] rest →
      (part ∈ linesFrom [] rest → part <:+: rest) →
        part <:+: line.reverse ++ (broken ++ rest) := by
    intro line broken rest hmem ih
    rcases List.mem_cons.mp hmem with rfl | hrest
    · exact (List.prefix_append _ _).isInfix
    · exact (ih hrest).trans ((List.suffix_append _ _).trans (List.suffix_append _ _)).isInfix
  induction line, cs using linesFrom.induct with
  | case1 line hempty =>
    rw [linesFrom.eq_def] at h
    simp [hempty] at h
  | case2 line hempty =>
    rw [linesFrom.eq_def] at h
    dsimp only at h
    rw [if_neg hempty] at h
    obtain rfl := List.mem_singleton.mp h
    rw [List.append_nil]
  | case3 line rest ih =>
    rw [linesFrom.eq_def] at h
    exact hbroken line ['\r', '\n'] rest h ih
  | case4 line c rest hpair hbreak ih =>
    rw [linesFrom_of_not_pair hpair, if_pos hbreak] at h
    exact hbroken line [c] rest h ih
  | case5 line c rest hpair hbreak ih =>
    rw [linesFrom_of_not_pair hpair, if_neg hbreak] at h
    have hin := ih h
    rwa [List.reverse_cons, List.append_assoc] at hin

namespace Head

/-- The numbers of a head stand in its line. -/
theorem of_located?_eq_some {name cs file line column code message : List Char}
    {category : Category}
    (h : located? name cs = some (file, line, column, category, code, message)) :
    (IsNumeral line ∧ IsNumeral column ∧ IsNumeral code) ∧
      placeText line column category code <:+: cs := by
  induction cs generalizing name with
  | nil => cases h
  | cons c cs ih =>
    rw [located?] at h
    split at h
    · rename_i found hfound
      obtain ⟨rfl, rfl⟩ := Prod.mk.inj (Option.some.inj h)
      split_ifs at hfound
      obtain ⟨hnumerals, heq⟩ := of_place?_eq_some hfound
      exact ⟨hnumerals, heq ▸ (List.prefix_append _ _).isInfix⟩
    · obtain ⟨hnumerals, hin⟩ := ih h
      exact ⟨hnumerals, hin.trans (List.suffix_cons c cs).isInfix⟩

theorem infix_kindText (category : Category) (code : List Char) :
    code <:+: kindText category code :=
  ((List.prefix_append code _).isInfix.trans (List.suffix_append _ _).isInfix).trans
    (List.suffix_append _ _).isInfix

theorem infix_placeText (line column : List Char) (category : Category) (code : List Char) :
    line <:+: placeText line column category code ∧
      column <:+: placeText line column category code ∧
        code <:+: placeText line column category code := by
  have hrest : ∀ {part rest : List Char}, part <:+: rest →
      ∀ before : List Char, part <:+: before ++ rest :=
    fun hpart before => hpart.trans (List.suffix_append before _).isInfix
  refine ⟨?_, ?_, ?_⟩
  · exact hrest (List.prefix_append line _).isInfix ['(']
  · exact hrest (hrest (hrest (List.prefix_append column _).isInfix [',']) line) ['(']
  · exact hrest (hrest (hrest (hrest (hrest (infix_kindText category code) _) column) [',']) line)
      ['(']

/-- **A line** whose numbers are short is a head or none. -/
theorem exists_parse? (cwd : String) {line : List Char} (h : HasShortRuns line) :
    ∃ head, parse? cwd line = .ok head := by
  rw [parse?]
  rcases hlocated : located? [] line with _ | ⟨file, row, column, category, code, message⟩
  · rcases hkind : kind? line with _ | ⟨category, code, message⟩
    · exact ⟨none, rfl⟩
    · obtain ⟨hcode, rfl⟩ := of_kind?_eq_some hkind
      obtain ⟨n, hn⟩ := h.exists_number hcode
        ((infix_kindText category code).trans (List.prefix_append _ _).isInfix)
      exact ⟨_, by dsimp only; rw [hn]; rfl⟩
  · obtain ⟨⟨hrow, hcolumn, hcode⟩, hin⟩ := of_located?_eq_some hlocated
    obtain ⟨hrowIn, hcolumnIn, hcodeIn⟩ := infix_placeText row column category code
    obtain ⟨k, hk⟩ := h.exists_number hcode (hcodeIn.trans hin)
    obtain ⟨m, hm⟩ := h.exists_number hrow (hrowIn.trans hin)
    obtain ⟨n, hn⟩ := h.exists_number hcolumn (hcolumnIn.trans hin)
    exact ⟨_, by dsimp only; rw [hk, hm, hn]; rfl⟩

end Head

namespace Output

theorem exists_readLine (cwd : String) (r : Reading) {line : List Char} (h : HasShortRuns line) :
    ∃ r', readLine cwd r line = .ok r' := by
  have hfresh : ∃ r', readFresh cwd r line = .ok r' := by
    obtain ⟨head, hhead⟩ := Head.exists_parse? cwd h
    rw [readFresh, hhead]
    cases emitted? line with
    | some path => exact ⟨_, rfl⟩
    | none => cases head <;> exact ⟨_, rfl⟩
  rw [readLine]
  split_ifs
  · exact ⟨r, rfl⟩
  · split
    · exact ⟨_, rfl⟩
    · exact hfresh

theorem exists_readLines (cwd : String) (r : Reading) {lines : List (List Char)}
    (h : ∀ line ∈ lines, HasShortRuns line) : ∃ r', readLines cwd r lines = .ok r' := by
  induction lines generalizing r with
  | nil => exact ⟨r, rfl⟩
  | cons line lines ih =>
    obtain ⟨next, hnext⟩ := exists_readLine cwd r (h line List.mem_cons_self)
    obtain ⟨last, hlast⟩ := ih next fun other hother => h other (List.mem_cons_of_mem _ hother)
    exact ⟨last, by rw [readLines, hnext]; exact hlast⟩

/-- **Every output without a number that is too long** can be read. -/
theorem exists_parse {text : String} (cwd : String) (h : HasShortRuns text.toList) :
    ∃ output, parse text cwd = .ok output := by
  have hlines : ∀ line ∈ Text.linesFrom [] text.toList, HasShortRuns line :=
    fun line hline => h.mono (Text.infix_of_mem_linesFrom hline)
  obtain ⟨r, hr⟩ := exists_readLines cwd {} hlines
  exact ⟨_, by rw [parse, hr]; rfl⟩

end Output

end TsProject

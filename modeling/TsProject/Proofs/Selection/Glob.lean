import TsProject.Proofs.Path.Below
import TsProject.Selection.Spec

/-!
# Specifications match component by component

The pieces of a specification match a text character by character, across slashes and with
several ways to go on. `Aligns` is the reading that a specification is meant to have: its
components and those of the path are laid side by side, `**` takes any number of them, and every
other component takes exactly one.

`accepts_iff_aligns` says that the two agree on normal paths below a single slash: an include
specification takes a path exactly when their components align, and an exclude specification
exactly when its components align with some first components of the path.

The reason is that no piece can stop inside a component: what follows a component in the pieces
accepts only a rest that is empty or begins with a slash (`stopsAtSlash_matchesFrom`), so that all
ways of cutting the text cut it between components.
-/

namespace TsProject.FileSpec

open Text (AtSep headed)

/-! ### Component-wise matching -/

/-- The name is that of a package directory. -/
def IsPackageName (name : List Char) : Prop := String.ofList name ∈ packageDirs

/-- A name that `**` of an include specification takes. -/
structure IsOpenName (name : List Char) : Prop where
  ne_nil : name ≠ []
  notHidden : name.head? ≠ some '.'
  notPackage : ¬ IsPackageName name

/-- The characters of a component match a name: `*` any run of characters, `?` exactly one, any
other character itself. -/
inductive MatchesName : (component name : List Char) → Prop
  | nil : MatchesName [] []
  | run {component name : List Char} (run : List Char) :
    MatchesName component name → MatchesName ('*' :: component) (run ++ name)
  | one {component name : List Char} (c : Char) :
    MatchesName component name → MatchesName ('?' :: component) (c :: name)
  | char {c : Char} {component name : List Char} : c ≠ '*' → c ≠ '?' →
    MatchesName component name → MatchesName (c :: component) (c :: name)

/-- The component begins with a wildcard. -/
def StartsWild (component : List Char) : Prop :=
  component.head? = some '*' ∨ component.head? = some '?'

instance (component : List Char) : Decidable (StartsWild component) :=
  inferInstanceAs (Decidable (_ ∨ _))

/-- The component takes the name: without wildcards it has to be equal; with them the characters
have to match, and in an include specification a wildcard in front takes neither a hidden name
nor a package directory at the end of the path. -/
def TakesName (exclude : Bool) (component name : List Char) (final : Prop) : Prop :=
  if hasWildcardChars component then
    MatchesName component name ∧ (exclude = false → StartsWild component →
      name.head? ≠ some '.' ∧ ¬ (final ∧ IsPackageName name))
  else name = component

/-- **Alignment** of the components of a specification with those of a path. -/
inductive Aligns (exclude : Bool) : (spec names : List (List Char)) → Prop
  | nil : Aligns exclude [] []
  | dirs {passed spec names : List (List Char)} :
    (exclude = false → ∀ n ∈ passed, IsOpenName n) → Aligns exclude spec names →
      Aligns exclude (anyDirsName :: spec) (passed ++ names)
  | name {component name : List Char} {spec names : List (List Char)} :
    component ≠ anyDirsName → TakesName exclude component name (names = []) →
      Aligns exclude spec names → Aligns exclude (component :: spec) (name :: names)

section Inversion

variable {exclude : Bool} {spec names : List (List Char)}

theorem aligns_nil_iff : Aligns exclude [] names ↔ names = [] := by
  constructor
  · rintro ⟨⟩
    rfl
  · rintro rfl
    exact .nil

theorem aligns_dirs_iff : Aligns exclude (anyDirsName :: spec) names ↔
    ∃ passed rest, names = passed ++ rest ∧ (exclude = false → ∀ n ∈ passed, IsOpenName n) ∧
      Aligns exclude spec rest := by
  constructor
  · intro h
    cases h with
    | dirs hpassed hrest => exact ⟨_, _, rfl, hpassed, hrest⟩
    | name hne _ _ => exact absurd rfl hne
  · rintro ⟨passed, rest, rfl, hpassed, hrest⟩
    exact .dirs hpassed hrest

theorem aligns_name_iff {component : List Char} (hne : component ≠ anyDirsName) :
    Aligns exclude (component :: spec) names ↔
      ∃ name rest, names = name :: rest ∧ TakesName exclude component name (rest = []) ∧
        Aligns exclude spec rest := by
  constructor
  · intro h
    cases h with
    | dirs _ _ => exact absurd rfl hne
    | name _ htakes hrest => exact ⟨_, _, rfl, htakes, hrest⟩
  · rintro ⟨name, rest, rfl, htakes, hrest⟩
    exact .name hne htakes hrest

/-- The empty component in front of an absolute specification takes that of the path. -/
theorem aligns_empty_cons_iff : Aligns exclude ([] :: spec) names ↔
    ∃ rest, names = [] :: rest ∧ Aligns exclude spec rest := by
  rw [aligns_name_iff (by simp [anyDirsName])]
  constructor
  · rintro ⟨name, rest, rfl, hname, hrest⟩
    obtain rfl : name = [] := by simpa [TakesName, hasWildcardChars] using hname
    exact ⟨rest, rfl, hrest⟩
  · rintro ⟨rest, rfl, hrest⟩
    exact ⟨[], rest, rfl, by simp [TakesName, hasWildcardChars], hrest⟩

end Inversion

/-! ### Going on after some pieces -/

/-- Pieces put behind others take the rest that those leave. -/
theorem matchesPieces_append (last : List Char → Bool) (ps qs : List Piece) :
    matchesPieces last (ps ++ qs) = matchesPieces (matchesPieces last qs) ps := by
  induction ps with
  | nil => rfl
  | cons p ps ih =>
    funext cs
    cases p <;> cases cs <;> simp [matchesPieces, ih]

/-- Matching by the pieces of components behind the first. -/
def matchesFrom (exclude : Bool) (components : List (List Char)) : List Char → Bool :=
  matchesPieces (ending exclude) (piecesFrom exclude false components)

theorem matchesFrom_nil (exclude : Bool) (cs : List Char) :
    matchesFrom exclude [] cs = ending exclude cs := rfl

theorem matchesFrom_dirs (exclude : Bool) (components : List (List Char)) (cs : List Char) :
    matchesFrom exclude (anyDirsName :: components) cs =
      if exclude then afterAnyDirs (matchesFrom exclude components) cs
      else afterOpenDirs (matchesFrom exclude components) false cs := by
  cases exclude <;> simp [matchesFrom, piecesFrom, matchesPieces]

theorem matchesFrom_name {exclude : Bool} {component : List Char}
    (hne : component ≠ anyDirsName) (components : List (List Char)) (cs : List Char) :
    matchesFrom exclude (component :: components) cs =
      matchesPieces (matchesPieces (matchesFrom exclude components)
        (componentPieces exclude component)) [.char '/'] cs := by
  have hpieces : piecesFrom exclude false (component :: components) =
      [.char '/'] ++ (componentPieces exclude component ++
        piecesFrom exclude false components) := by
    simp [piecesFrom, hne]
  rw [matchesFrom, hpieces, matchesPieces_append, matchesPieces_append]
  rfl

@[simp] theorem matchesPieces_nil (last : List Char → Bool) :
    matchesPieces last [] = last := rfl

theorem matchesPieces_slash_iff {next : List Char → Bool} {cs : List Char} :
    matchesPieces next [.char '/'] cs ↔ ∃ rest, cs = '/' :: rest ∧ next rest := by
  cases cs with
  | nil => simp [matchesPieces]
  | cons c cs =>
    simp only [matchesPieces, Bool.and_eq_true, beq_iff_eq]
    constructor
    · rintro ⟨rfl, h⟩
      exact ⟨cs, rfl, h⟩
    · rintro ⟨rest, ⟨⟩, h⟩
      exact ⟨rfl, h⟩

/-! ### Ends of components -/

/-- A continuation that accepts nothing inside a component. -/
def StopsAtSlash (next : List Char → Bool) : Prop :=
  ∀ cs, '\n' ∉ cs → next cs → AtSep '/' cs

/-- Outside a directory, a character of a name is no directory. -/
theorem afterOpenDirs_of_ne_slash {c : Char} (hc : c ≠ '/') (next : List Char → Bool)
    (inside : Bool) (rest : List Char) : afterOpenDirs next inside (c :: rest) =
      (next (c :: rest) || (inside && afterOpenDirs next true rest)) := by
  rw [afterOpenDirs, bne_iff_ne.mpr hc, Bool.and_true]
  rintro d ds rfl
  exact absurd rfl hc

theorem afterAnyDirs_of_ne_slash {c : Char} (hc : c ≠ '/') (next : List Char → Bool)
    (rest : List Char) : afterAnyDirs next (c :: rest) = next (c :: rest) := by
  rw [afterAnyDirs]
  rintro d ds ⟨⟩
  exact absurd rfl hc

/-- **No piece stops inside a component**: the components behind one accept only a rest that is
empty or begins with a slash. -/
theorem stopsAtSlash_matchesFrom (exclude : Bool) (components : List (List Char)) :
    StopsAtSlash (matchesFrom exclude components) := by
  induction components with
  | nil =>
    intro cs hline h
    rw [matchesFrom_nil] at h
    match cs, h with
    | [], _ => exact Text.atSep_nil
    | c :: rest, h =>
      by_contra hc
      rw [Text.atSep_cons] at hc
      have hslash : atSlash (c :: rest) = false := by
        rw [atSlash]
        rintro ds ⟨⟩
        exact hc rfl
      have hend : atEnd (c :: rest) = false := by
        rw [atEnd]
        · simp
        · rintro ⟨⟩
          simp at hline
      simp [ending, hslash, hend] at h
  | cons component components ih =>
    intro cs hline h
    cases cs with
    | nil => exact Text.atSep_nil
    | cons c rest =>
      rw [Text.atSep_cons]
      by_contra hc
      by_cases hdirs : component = anyDirsName
      · -- away from a slash no directory begins, so that the components behind decide
        subst hdirs
        rw [matchesFrom_dirs, afterAnyDirs_of_ne_slash hc, afterOpenDirs_of_ne_slash hc] at h
        exact hc (Text.atSep_cons.mp (ih _ hline (by simpa using h)))
      · rw [matchesFrom_name hdirs, matchesPieces_slash_iff] at h
        obtain ⟨_, heq, _⟩ := h
        exact hc (List.cons_eq_cons.mp heq).1

/-! ### A component at a name -/

theorem afterRun_iff {p : Char → Bool} {next : List Char → Bool} {cs : List Char} :
    afterRun p next cs ↔ ∃ run rest, cs = run ++ rest ∧ (∀ c ∈ run, p c) ∧ next rest := by
  induction cs with
  | nil =>
    rw [afterRun]
    constructor
    · exact fun h => ⟨[], [], rfl, by simp, h⟩
    · rintro ⟨run, rest, heq, -, h⟩
      rwa [(List.append_eq_nil_iff.mp heq.symm).2] at h
  | cons c cs ih =>
    rw [afterRun, Bool.or_eq_true, Bool.and_eq_true, ih]
    constructor
    · rintro (h | ⟨hc, run, rest, rfl, hrun, h⟩)
      · exact ⟨[], c :: cs, rfl, by simp, h⟩
      · exact ⟨c :: run, rest, rfl, by simpa [hc] using hrun, h⟩
    · rintro ⟨run, rest, heq, hrun, h⟩
      cases run with
      | nil => exact Or.inl (by rwa [heq])
      | cons d run =>
        obtain ⟨rfl, rfl⟩ := List.cons_eq_cons.mp heq
        exact Or.inr ⟨hrun c (by simp), run, rest, rfl, fun d hd => hrun d (by simp [hd]), h⟩

theorem matchesPieces_chars_iff {next : List Char → Bool} {word cs : List Char} :
    matchesPieces next (word.map .char) cs ↔ ∃ rest, cs = word ++ rest ∧ next rest := by
  induction word generalizing cs with
  | nil => simp
  | cons c word ih =>
    cases cs with
    | nil => simp [matchesPieces]
    | cons d cs =>
      simp only [List.map_cons, matchesPieces, Bool.and_eq_true, beq_iff_eq, ih]
      constructor
      · rintro ⟨rfl, rest, rfl, h⟩
        exact ⟨rest, rfl, h⟩
      · rintro ⟨rest, heq, h⟩
        obtain ⟨rfl, rfl⟩ := List.cons_eq_cons.mp heq
        exact ⟨rfl, rest, rfl, h⟩

theorem matchesName_nil_iff {name : List Char} : MatchesName [] name ↔ name = [] := by
  constructor
  · rintro ⟨⟩
    rfl
  · rintro rfl
    exact .nil

theorem matchesName_run_iff {component name : List Char} :
    MatchesName ('*' :: component) name ↔
      ∃ run more, name = run ++ more ∧ MatchesName component more := by
  constructor
  · intro h
    cases h with
    | run run h => exact ⟨run, _, rfl, h⟩
    | char hstar _ _ => exact absurd rfl hstar
  · rintro ⟨run, more, rfl, h⟩
    exact .run run h

theorem matchesName_one_iff {component name : List Char} :
    MatchesName ('?' :: component) name ↔
      ∃ c more, name = c :: more ∧ MatchesName component more := by
  constructor
  · intro h
    cases h with
    | one c h => exact ⟨c, _, rfl, h⟩
    | char _ hone _ => exact absurd rfl hone
  · rintro ⟨c, more, rfl, h⟩
    exact .one c h

theorem matchesName_char_iff {c : Char} {component name : List Char} (hstar : c ≠ '*')
    (hone : c ≠ '?') : MatchesName (c :: component) name ↔
      ∃ more, name = c :: more ∧ MatchesName component more := by
  constructor
  · intro h
    cases h with
    | run _ _ => exact absurd rfl hstar
    | one _ _ => exact absurd rfl hone
    | char _ _ h => exact ⟨_, rfl, h⟩
  · rintro ⟨more, rfl, h⟩
    exact .char hstar hone h

section Name

variable {next : List Char → Bool} {ps : List Piece} {component name tail : List Char}

theorem matchesPieces_run_iff (hname : '/' ∉ name) (htail : AtSep '/' tail) :
    matchesPieces next (.run :: ps) (name ++ tail) ↔
      ∃ run more, name = run ++ more ∧ matchesPieces next ps (more ++ tail) := by
  rw [matchesPieces, afterRun_iff]
  constructor
  · rintro ⟨run, rest, heq, hrun, h⟩
    obtain ⟨more, rfl, rfl⟩ :=
      Text.prefix_of_append_eq heq.symm (fun hmem => by simpa using hrun _ hmem) htail
    exact ⟨run, more, rfl, h⟩
  · rintro ⟨run, more, rfl, h⟩
    refine ⟨run, more ++ tail, List.append_assoc _ _ _, fun d hd => bne_iff_ne.mpr ?_, h⟩
    exact ne_of_mem_of_not_mem (List.mem_append_left more hd) hname

theorem matchesPieces_one_iff (hname : '/' ∉ name) (htail : AtSep '/' tail) :
    matchesPieces next (.one :: ps) (name ++ tail) ↔
      ∃ c more, name = c :: more ∧ matchesPieces next ps (more ++ tail) := by
  cases name with
  | nil =>
    cases tail with
    | nil => simp [matchesPieces]
    | cons d tail => simp [matchesPieces, Text.atSep_cons.mp htail]
  | cons d name =>
    have hd : (d != '/') = true := bne_iff_ne.mpr (ne_of_mem_of_not_mem (by simp) hname)
    simp [matchesPieces, hd]

theorem matchesPieces_char_iff {a : Char} (ha : a ≠ '/') (htail : AtSep '/' tail) :
    matchesPieces next (.char a :: ps) (name ++ tail) ↔
      ∃ more, name = a :: more ∧ matchesPieces next ps (more ++ tail) := by
  cases name with
  | nil =>
    cases tail with
    | nil => simp [matchesPieces]
    | cons d tail => simp [matchesPieces, Text.atSep_cons.mp htail, ha]
  | cons d name =>
    rw [List.cons_append, matchesPieces, Bool.and_eq_true, beq_iff_eq]
    constructor
    · rintro ⟨rfl, h⟩
      exact ⟨name, rfl, h⟩
    · rintro ⟨more, ⟨⟩, h⟩
      exact ⟨rfl, h⟩

/-- The characters of a component match at a name exactly when they match the name and what
follows takes the rest. -/
theorem matchesPieces_pieceOf_iff (hnext : StopsAtSlash next) (hcomponent : '/' ∉ component)
    (hname : '/' ∉ name) (htail : AtSep '/' tail) (hline : '\n' ∉ name ++ tail) :
    matchesPieces next (component.map pieceOf) (name ++ tail) ↔
      MatchesName component name ∧ next tail := by
  induction component generalizing name with
  | nil =>
    rw [List.map_nil, matchesPieces_nil, matchesName_nil_iff]
    constructor
    · intro h
      cases name with
      | nil => exact ⟨rfl, h⟩
      | cons c name => exact absurd (by simp [Text.atSep_cons.mp (hnext _ hline h)]) hname
    · rintro ⟨rfl, h⟩
      exact h
  | cons c component ih =>
    -- whatever the first piece passes of the name, the others match at what is left of it
    have hih : ∀ run more, name = run ++ more →
        (matchesPieces next (component.map pieceOf) (more ++ tail) ↔
          MatchesName component more ∧ next tail) := by
      rintro run more rfl
      refine ih (fun h => hcomponent (List.mem_cons_of_mem c h))
        (fun h => hname (List.mem_append_right run h)) fun h => hline ?_
      rw [List.append_assoc]
      exact List.mem_append_right run h
    have hc : c ≠ '/' := ne_of_mem_of_not_mem (by simp) hcomponent
    rw [List.map_cons]
    by_cases hstar : c = '*'
    · subst hstar
      rw [show pieceOf '*' = .run from rfl, matchesPieces_run_iff hname htail, matchesName_run_iff]
      constructor
      · rintro ⟨run, more, hmore, h⟩
        obtain ⟨hmatch, hrest⟩ := (hih run more hmore).mp h
        exact ⟨⟨run, more, hmore, hmatch⟩, hrest⟩
      · rintro ⟨⟨run, more, hmore, hmatch⟩, hrest⟩
        exact ⟨run, more, hmore, (hih run more hmore).mpr ⟨hmatch, hrest⟩⟩
    · by_cases hone : c = '?'
      · subst hone
        rw [show pieceOf '?' = .one from rfl, matchesPieces_one_iff hname htail,
          matchesName_one_iff]
        constructor
        · rintro ⟨d, more, hmore, h⟩
          obtain ⟨hmatch, hrest⟩ := (hih [d] more hmore).mp h
          exact ⟨⟨d, more, hmore, hmatch⟩, hrest⟩
        · rintro ⟨⟨d, more, hmore, hmatch⟩, hrest⟩
          exact ⟨d, more, hmore, (hih [d] more hmore).mpr ⟨hmatch, hrest⟩⟩
      · rw [show pieceOf c = .char c by simp [pieceOf, hstar, hone],
          matchesPieces_char_iff hc htail, matchesName_char_iff hstar hone]
        constructor
        · rintro ⟨more, hmore, h⟩
          obtain ⟨hmatch, hrest⟩ := (hih [c] more hmore).mp h
          exact ⟨⟨more, hmore, hmatch⟩, hrest⟩
        · rintro ⟨⟨more, hmore, hmatch⟩, hrest⟩
          exact ⟨more, hmore, (hih [c] more hmore).mpr ⟨hmatch, hrest⟩⟩

theorem atEnd_iff {cs : List Char} (hline : '\n' ∉ cs) : atEnd cs ↔ cs = [] := by
  unfold atEnd
  split
  · simp
  · simp at hline
  · rename_i hne _
    simpa using hne

theorem atSlash_iff {cs : List Char} : atSlash cs ↔ ∃ rest, cs = '/' :: rest := by
  unfold atSlash
  split
  · simp
  · rename_i hne
    simpa using hne

theorem packageAhead_iff {pred : List Char → Bool} {cs : List Char} :
    packageAhead pred cs ↔
      ∃ package ∈ packageDirs, ∃ rest, cs = package.toList ++ rest ∧ pred rest := by
  rw [packageAhead, List.any_eq_true]
  refine exists_congr fun package => and_congr_right fun _ => ?_
  split
  · rename_i rest hdrop
    rw [Text.dropStart?_eq_some_iff] at hdrop
    constructor
    · exact fun h => ⟨rest, hdrop, h⟩
    · rintro ⟨rest', heq, h⟩
      rwa [List.append_cancel_left (hdrop.symm.trans heq)]
  · rename_i hdrop
    rw [iff_false_left Bool.false_ne_true]
    rintro ⟨rest, heq, -⟩
    rw [Text.dropStart?_eq_some_iff.mpr heq] at hdrop
    cases hdrop

theorem noSlash_of_mem_packageDirs {package : String} (h : package ∈ packageDirs) :
    '/' ∉ package.toList := by
  revert package
  decide

/-- Where only ends of names are accepted, a package directory stands ahead exactly when the
name is one. -/
theorem packageAhead_append_iff {pred : List Char → Bool} (hpred : StopsAtSlash pred)
    (hname : '/' ∉ name) (htail : AtSep '/' tail) (hline : '\n' ∉ name ++ tail) :
    packageAhead pred (name ++ tail) ↔ IsPackageName name ∧ pred tail := by
  rw [packageAhead_iff]
  constructor
  · rintro ⟨package, hpackage, rest, heq, h⟩
    have hrest : AtSep '/' rest :=
      hpred rest (fun hm => hline (heq ▸ List.mem_append_right _ hm)) h
    obtain ⟨rfl, rfl⟩ := Text.append_inj_of_atSep heq hname
      (noSlash_of_mem_packageDirs hpackage) htail hrest
    exact ⟨by simpa [IsPackageName] using hpackage, h⟩
  · rintro ⟨hpackage, h⟩
    exact ⟨_, hpackage, tail, by rw [String.toList_ofList], h⟩

theorem stopsAtSlash_atEnd : StopsAtSlash atEnd := by
  intro cs hline h
  rw [(atEnd_iff hline).mp h]
  exact Text.atSep_nil

theorem stopsAtSlash_atEnd_or_atSlash : StopsAtSlash fun cs => atEnd cs || atSlash cs := by
  intro cs hline h
  rcases Bool.or_eq_true_iff.mp h with h | h
  · exact stopsAtSlash_atEnd cs hline h
  · obtain ⟨rest, rfl⟩ := atSlash_iff.mp h
    exact Text.atSep_cons.mpr rfl

theorem head?_append_ne_dot_iff (htail : AtSep '/' tail) :
    (name ++ tail).head? ≠ some '.' ↔ name.head? ≠ some '.' := by
  cases name with
  | cons c name => simp
  | nil =>
    cases tail with
    | nil => simp
    | cons d tail => simp [Text.atSep_cons.mp htail]

/-- The pieces of a component with wildcards: guards where an include specification begins with
one, then a piece for every character. -/
theorem componentPieces_of_wild {exclude : Bool} (hwild : hasWildcardChars component) :
    componentPieces exclude component =
      (if exclude = false ∧ StartsWild component then [.notHidden, .notPackage] else []) ++
        component.map pieceOf := by
  cases component with
  | nil => simp [hasWildcardChars] at hwild
  | cons c component =>
    rw [componentPieces, hwild]
    cases exclude <;> simp [StartsWild]

/-- **One component takes one name**: its pieces match at a name exactly when the component takes
the name and what follows takes the rest. -/
theorem matchesPieces_componentPieces_iff (exclude : Bool) (hnext : StopsAtSlash next)
    (hcomponent : '/' ∉ component) (hname : '/' ∉ name) (htail : AtSep '/' tail)
    (hline : '\n' ∉ name ++ tail) :
    matchesPieces next (componentPieces exclude component) (name ++ tail) ↔
      TakesName exclude component name (tail = []) ∧ next tail := by
  cases hwild : hasWildcardChars component with
  | false =>
    have hpieces : componentPieces exclude component = component.map .char := by
      simp [componentPieces, hwild]
    rw [hpieces, matchesPieces_chars_iff, TakesName, if_neg (by simp [hwild])]
    constructor
    · rintro ⟨rest, heq, h⟩
      -- the component cannot stop inside the name: what follows it would not take the rest
      have hrest : AtSep '/' rest :=
        hnext rest (fun hm => hline (heq ▸ List.mem_append_right _ hm)) h
      obtain ⟨rfl, rfl⟩ := Text.append_inj_of_atSep heq hname hcomponent htail hrest
      exact ⟨rfl, h⟩
    · rintro ⟨rfl, h⟩
      exact ⟨tail, rfl, h⟩
  | true =>
    have hchars := matchesPieces_pieceOf_iff hnext hcomponent hname htail hline
    rw [componentPieces_of_wild hwild, TakesName, if_pos hwild]
    by_cases hguard : exclude = false ∧ StartsWild component
    · have hend : packageAhead atEnd (name ++ tail) ↔ tail = [] ∧ IsPackageName name := by
        rw [packageAhead_append_iff stopsAtSlash_atEnd hname htail hline,
          atEnd_iff fun hm => hline (List.mem_append_right _ hm), and_comm]
      rw [if_pos hguard, List.cons_append, List.cons_append, List.nil_append, matchesPieces,
        matchesPieces, Bool.and_eq_true, Bool.and_eq_true, Bool.not_eq_true', hchars, bne_iff_ne,
        head?_append_ne_dot_iff htail, ← Bool.not_eq_true, hend]
      constructor
      · rintro ⟨hhidden, hpackage, hmatch, h⟩
        exact ⟨⟨hmatch, fun _ _ => ⟨hhidden, hpackage⟩⟩, h⟩
      · rintro ⟨⟨hmatch, hopen⟩, h⟩
        obtain ⟨hhidden, hpackage⟩ := hopen hguard.1 hguard.2
        exact ⟨hhidden, hpackage, hmatch, h⟩
    · rw [if_neg hguard, List.nil_append, hchars]
      exact and_congr_left fun _ => (and_iff_left fun hinclude hstarts =>
        absurd ⟨hinclude, hstarts⟩ hguard).symm

end Name

/-! ### Any number of directories -/

section Dirs

variable {next : List Char → Bool} {names : List (List Char)}

/-- At a slash a new directory begins, whether or not one has just been passed. -/
theorem afterOpenDirs_slash (inside : Bool) (cs : List Char) :
    afterOpenDirs next inside ('/' :: cs) = afterOpenDirs next false ('/' :: cs) := by
  cases cs <;> simp [afterOpenDirs]

/-- Inside a directory the rest of its name is passed. -/
theorem afterOpenDirs_inside {name tail : List Char} (hnext : StopsAtSlash next)
    (hname : '/' ∉ name) (htail : AtSep '/' tail) (hline : '\n' ∉ name ++ tail) :
    afterOpenDirs next true (name ++ tail) = afterOpenDirs next false tail := by
  induction name with
  | nil =>
    cases tail with
    | nil => rfl
    | cons d tail =>
      rw [List.nil_append, Text.atSep_cons.mp htail]
      exact afterOpenDirs_slash true tail
  | cons c name ih =>
    have hc : c ≠ '/' := ne_of_mem_of_not_mem (by simp) hname
    -- inside a name nothing stops, so that only going on is left
    have hstop : next (c :: (name ++ tail)) = false := by
      rw [← Bool.not_eq_true]
      exact fun h => hc (Text.atSep_cons.mp (hnext _ hline h))
    rw [List.cons_append, afterOpenDirs_of_ne_slash hc, hstop, Bool.false_or, Bool.true_and]
    exact ih (fun h => hname (List.mem_cons_of_mem c h)) fun h => hline (List.mem_cons_of_mem c h)

/-- A directory is passed when its name is open. -/
theorem afterOpenDirs_headed_cons_iff {name : List Char} (hnext : StopsAtSlash next)
    (hname : '/' ∉ name) (hline : '\n' ∉ headed '/' (name :: names)) :
    afterOpenDirs next false (headed '/' (name :: names)) ↔ next (headed '/' (name :: names)) ∨
      IsOpenName name ∧ afterOpenDirs next false (headed '/' names) := by
  have htail : AtSep '/' (headed '/' names) := Text.atSep_headed names
  have hline' : '\n' ∉ name ++ headed '/' names := fun h => hline (by simpa using h)
  cases name with
  | nil =>
    have hopen : ¬ (IsOpenName [] ∧ afterOpenDirs next false (headed '/' names)) :=
      fun h => h.1.ne_nil rfl
    rw [or_iff_left hopen, Text.headed_cons, List.cons_append, List.nil_append]
    cases hcs : headed '/' names with
    | nil => simp [afterOpenDirs]
    | cons d cs =>
      rw [hcs, Text.atSep_cons] at htail
      simp [afterOpenDirs, htail]
  | cons c name =>
    have hc : c ≠ '/' := ne_of_mem_of_not_mem (by simp) hname
    have hnot : '/' ∉ name := fun h => hname (List.mem_cons_of_mem c h)
    have htailEnd : (atEnd (headed '/' names) || atSlash (headed '/' names)) = true := by
      cases names <;> rfl
    have hpackage := packageAhead_append_iff stopsAtSlash_atEnd_or_atSlash hname htail hline'
    rw [Text.headed_cons, List.cons_append, List.cons_append, afterOpenDirs,
      afterOpenDirs_inside hnext hnot htail fun h => hline' (List.mem_cons_of_mem c h),
      Bool.or_eq_true, Bool.and_eq_true]
    refine or_congr_right (and_congr_left fun _ => ?_)
    rw [Bool.and_eq_true, Bool.and_eq_true, bne_iff_ne, bne_iff_ne, Bool.not_eq_true',
      ← Bool.not_eq_true, ← List.cons_append, hpackage, htailEnd, and_iff_left rfl]
    constructor
    · rintro ⟨⟨-, hdot⟩, hname⟩
      exact ⟨by simp, by simpa using hdot, hname⟩
    · rintro ⟨-, hdot, hname⟩
      exact ⟨⟨hc, by simpa using hdot⟩, hname⟩

/-- **Any open directories** are passed, each as a whole. -/
theorem afterOpenDirs_headed_iff (hnext : StopsAtSlash next) (hnames : ∀ n ∈ names, '/' ∉ n)
    (hline : '\n' ∉ headed '/' names) :
    afterOpenDirs next false (headed '/' names) ↔
      ∃ passed rest, names = passed ++ rest ∧ (∀ n ∈ passed, IsOpenName n) ∧
        next (headed '/' rest) := by
  induction names with
  | nil =>
    constructor
    · exact fun h => ⟨[], [], rfl, by simp, h⟩
    · rintro ⟨passed, rest, heq, -, h⟩
      rwa [(List.append_eq_nil_iff.mp heq.symm).2] at h
  | cons name names ih =>
    have hnames' : ∀ n ∈ names, '/' ∉ n := fun n hn => hnames n (List.mem_cons_of_mem name hn)
    have hline' : '\n' ∉ headed '/' names := fun h => hline (List.mem_append_right _ h)
    rw [afterOpenDirs_headed_cons_iff hnext (hnames name (by simp)) hline, ih hnames' hline']
    constructor
    · rintro (h | ⟨hopen, passed, rest, rfl, hpassed, h⟩)
      · exact ⟨[], name :: names, rfl, by simp, h⟩
      · exact ⟨name :: passed, rest, rfl, List.forall_mem_cons.mpr ⟨hopen, hpassed⟩, h⟩
    · rintro ⟨passed, rest, heq, hpassed, h⟩
      cases passed with
      | nil =>
        obtain rfl : name :: names = rest := heq
        exact Or.inl h
      | cons first passed =>
        obtain ⟨rfl, rfl⟩ := List.cons_eq_cons.mp heq
        obtain ⟨hopen, hpassed⟩ := List.forall_mem_cons.mp hpassed
        exact Or.inr ⟨hopen, passed, rest, rfl, hpassed, h⟩

/-- **Any directories** are passed, each as a whole, when no name is empty. -/
theorem afterAnyDirs_headed_iff (hnext : StopsAtSlash next) (hnames : ∀ n ∈ names, '/' ∉ n)
    (hne : ∀ n ∈ names, n ≠ []) (hline : '\n' ∉ headed '/' names) :
    afterAnyDirs next (headed '/' names) ↔
      ∃ passed rest, names = passed ++ rest ∧ next (headed '/' rest) := by
  cases names with
  | nil =>
    constructor
    · exact fun h => ⟨[], [], rfl, h⟩
    · rintro ⟨passed, rest, heq, h⟩
      rwa [(List.append_eq_nil_iff.mp heq.symm).2] at h
  | cons name names =>
    obtain ⟨c, more, rfl⟩ := List.exists_cons_of_ne_nil (hne name (by simp))
    have hc : (c != '\n') = true :=
      bne_iff_ne.mpr (ne_of_mem_of_not_mem (by simp) hline)
    rw [Text.headed_cons, List.cons_append, List.cons_append, afterAnyDirs, Bool.or_eq_true,
      hc, Bool.true_and, afterRun_iff]
    constructor
    · rintro (h | ⟨run, rest, heq, -, h⟩)
      · exact ⟨[], (c :: more) :: names, rfl, h⟩
      · -- a run of any characters ends where names end, since what follows takes only such a rest
        have htext : headed '/' ((c :: more) :: names) = ('/' :: c :: run) ++ rest := by
          simp [heq]
        have hrest : AtSep '/' rest := by
          refine hnext rest (fun hm => hline ?_) h
          rw [htext]
          exact List.mem_append_right _ hm
        obtain ⟨passed, second, hsplit, rfl⟩ := Text.split_of_headed_eq_append htext hnames hrest
        exact ⟨passed, second, hsplit, h⟩
    · rintro ⟨passed, rest, heq, h⟩
      cases passed with
      | nil =>
        obtain rfl : (c :: more) :: names = rest := heq
        exact Or.inl h
      | cons first passed =>
        rw [List.cons_append] at heq
        obtain ⟨rfl, rfl⟩ := List.cons_eq_cons.mp heq
        refine Or.inr ⟨more ++ headed '/' passed, headed '/' rest, by simp, fun d hd => ?_, h⟩
        refine bne_iff_ne.mpr (ne_of_mem_of_not_mem ?_ hline)
        simp only [Text.headed_cons, Text.headed_append, List.mem_append, List.mem_cons] at hd ⊢
        tauto

end Dirs

/-! ### All components -/

section Components

variable {components names : List (List Char)}

/-- **Step**: behind a slash, a component other than `**` takes the next name. -/
theorem matchesFrom_name_iff {exclude : Bool} {component : List Char}
    (hdirs : component ≠ anyDirsName) (hcomponent : '/' ∉ component)
    (hnames : ∀ n ∈ names, '/' ∉ n) (hline : '\n' ∉ headed '/' names) :
    matchesFrom exclude (component :: components) (headed '/' names) ↔
      ∃ name rest, names = name :: rest ∧ TakesName exclude component name (rest = []) ∧
        matchesFrom exclude components (headed '/' rest) := by
  rw [matchesFrom_name hdirs, matchesPieces_slash_iff]
  cases names with
  | nil => simp
  | cons name names =>
    have hend : headed '/' names = [] ↔ names = [] := by cases names <;> simp
    have hstep := matchesPieces_componentPieces_iff exclude
      (stopsAtSlash_matchesFrom exclude components) hcomponent (hnames name (by simp))
      (Text.atSep_headed names)
      (fun h => hline (List.mem_cons_of_mem '/' h))
    rw [hend] at hstep
    constructor
    · rintro ⟨rest, heq, h⟩
      rw [← (List.cons_eq_cons.mp heq).2] at h
      exact ⟨name, names, rfl, hstep.mp h⟩
    · rintro ⟨name', rest, ⟨⟩, h⟩
      exact ⟨_, rfl, hstep.mpr h⟩

/-- The components of an include specification match the names with which they align. -/
theorem matchesFrom_include_iff (hcomponents : ∀ c ∈ components, '/' ∉ c)
    (hnames : ∀ n ∈ names, '/' ∉ n) (hline : '\n' ∉ headed '/' names) :
    matchesFrom false components (headed '/' names) ↔ Aligns false components names := by
  induction components generalizing names with
  | nil =>
    rw [matchesFrom_nil, aligns_nil_iff, ending, Bool.false_and, Bool.or_false, atEnd_iff hline]
    cases names <;> simp
  | cons component components ih =>
    obtain ⟨hfirst, hothers⟩ := List.forall_mem_cons.mp hcomponents
    by_cases hdirs : component = anyDirsName
    · subst hdirs
      rw [matchesFrom_dirs, if_neg Bool.false_ne_true, aligns_dirs_iff,
        afterOpenDirs_headed_iff (stopsAtSlash_matchesFrom false components) hnames hline]
      refine exists_congr fun passed => exists_congr fun rest => and_congr_right fun heq => ?_
      subst heq
      rw [ih hothers (fun n hn => hnames n (List.mem_append_right _ hn))
        fun h => hline (by rw [Text.headed_append]; exact List.mem_append_right _ h)]
      exact and_congr_left fun _ => ⟨fun h _ => h, fun h => h rfl⟩
    · rw [matchesFrom_name_iff hdirs hfirst hnames hline, aligns_name_iff hdirs]
      refine exists_congr fun name => exists_congr fun rest => and_congr_right fun heq => ?_
      subst heq
      rw [ih hothers (fun n hn => hnames n (List.mem_cons_of_mem name hn))
        fun h => hline (List.mem_append_right _ h)]

/-- Some first names align behind `**` when those behind some passed names do. -/
theorem exists_lead_aligns_dirs_iff :
    (∃ lead, lead <+: names ∧ Aligns true (anyDirsName :: components) lead) ↔
      ∃ passed rest, names = passed ++ rest ∧
        ∃ lead, lead <+: rest ∧ Aligns true components lead := by
  constructor
  · rintro ⟨lead, ⟨more, rfl⟩, h⟩
    obtain ⟨passed, rest, rfl, -, hrest⟩ := aligns_dirs_iff.mp h
    exact ⟨passed, rest ++ more, List.append_assoc _ _ _, rest, List.prefix_append _ _, hrest⟩
  · rintro ⟨passed, rest, rfl, lead, ⟨more, rfl⟩, h⟩
    refine ⟨passed ++ lead, ⟨more, List.append_assoc _ _ _⟩, ?_⟩
    exact aligns_dirs_iff.mpr ⟨passed, lead, rfl, by simp, h⟩

/-- In an exclude specification it does not matter whether a name is the last. -/
theorem takesName_exclude_congr {component name : List Char} (final final' : Prop) :
    TakesName true component name final ↔ TakesName true component name final' := by
  simp [TakesName]

/-- Some first names align with a component and others when the component takes the first name
and some names behind it align with the others. -/
theorem exists_lead_aligns_name_iff {component : List Char} (hdirs : component ≠ anyDirsName) :
    (∃ lead, lead <+: names ∧ Aligns true (component :: components) lead) ↔
      ∃ name rest, names = name :: rest ∧ TakesName true component name (rest = []) ∧
        ∃ lead, lead <+: rest ∧ Aligns true components lead := by
  constructor
  · rintro ⟨lead, ⟨more, rfl⟩, h⟩
    obtain ⟨name, rest, rfl, htakes, hrest⟩ := (aligns_name_iff hdirs).mp h
    exact ⟨name, rest ++ more, rfl, (takesName_exclude_congr _ _).mp htakes, rest,
      List.prefix_append _ _, hrest⟩
  · rintro ⟨name, rest, rfl, htakes, lead, ⟨more, rfl⟩, h⟩
    refine ⟨name :: lead, ⟨more, rfl⟩, (aligns_name_iff hdirs).mpr ?_⟩
    exact ⟨name, lead, rfl, (takesName_exclude_congr _ _).mp htakes, h⟩

/-- The components of an exclude specification match the names of which some first ones align
with them. Below the root no name is empty; the root itself has one empty name. -/
theorem matchesFrom_exclude_iff (hcomponents : ∀ c ∈ components, '/' ∉ c)
    (hnames : ∀ n ∈ names, '/' ∉ n) (hline : '\n' ∉ headed '/' names)
    (hne : names = [[]] ∨ ∀ n ∈ names, n ≠ []) :
    matchesFrom true components (headed '/' names) ↔
      ∃ lead, lead <+: names ∧ Aligns true components lead := by
  induction components generalizing names with
  | nil =>
    have hend : ending true (headed '/' names) = true := by cases names <;> rfl
    rw [matchesFrom_nil]
    exact iff_of_true hend ⟨[], List.nil_prefix, .nil⟩
  | cons component components ih =>
    obtain ⟨hfirst, hothers⟩ := List.forall_mem_cons.mp hcomponents
    by_cases hdirs : component = anyDirsName
    · subst hdirs
      rw [matchesFrom_dirs, if_pos rfl, exists_lead_aligns_dirs_iff]
      rcases hne with rfl | hne
      · -- there is nothing to pass: the empty name of the root is no directory
        have hnone : afterAnyDirs (matchesFrom true components) (headed '/' [[]]) =
            matchesFrom true components (headed '/' [[]]) := by
          rw [Text.headed_cons, Text.headed_nil, List.append_nil, afterAnyDirs]
          rintro c rest ⟨⟩
        rw [hnone, ih hothers hnames hline (Or.inl rfl)]
        constructor
        · exact fun h => ⟨[], [[]], rfl, h⟩
        · rintro ⟨passed, rest, heq, lead, hlead, h⟩
          refine ⟨lead, ?_, h⟩
          cases passed with
          | nil => rwa [heq]
          | cons first passed =>
            obtain ⟨-, hnil⟩ := List.cons_eq_cons.mp heq
            rw [(List.append_eq_nil_iff.mp hnil.symm).2, List.prefix_nil] at hlead
            rw [hlead]
            exact List.nil_prefix
      · rw [afterAnyDirs_headed_iff (stopsAtSlash_matchesFrom true components) hnames hne hline]
        refine exists_congr fun passed => exists_congr fun rest => and_congr_right fun heq => ?_
        subst heq
        exact ih hothers (fun n hn => hnames n (List.mem_append_right _ hn))
          (fun h => hline (by rw [Text.headed_append]; exact List.mem_append_right _ h))
          (Or.inr fun n hn => hne n (List.mem_append_right _ hn))
    · rw [matchesFrom_name_iff hdirs hfirst hnames hline, exists_lead_aligns_name_iff hdirs]
      refine exists_congr fun name => exists_congr fun rest => and_congr_right fun heq => ?_
      subst heq
      rw [ih hothers (fun n hn => hnames n (List.mem_cons_of_mem name hn))
        (fun h => hline (List.mem_append_right _ h)) ?_]
      rcases hne with hroot | hne
      · rw [(List.cons_eq_cons.mp hroot).2]
        exact Or.inr (by simp)
      · exact Or.inr fun n hn => hne n (List.mem_cons_of_mem name hn)

end Components

/-! ### Specifications and paths -/

/-- An absolute specification matches by the components behind its first, empty one. -/
theorem accepts_eq_matchesFrom {spec path : String} {rest : List Char} (exclude : Bool)
    (hspec : spec.toList = '/' :: rest) :
    accepts exclude spec path =
      matchesFrom exclude (Text.splitOnChar '/' rest) path.toList := by
  have hpieces : pieces exclude spec.toList =
      piecesFrom exclude false (Text.splitOnChar '/' rest) := by
    simp [pieces, hspec, Text.splitOnChar, piecesFrom, anyDirsName, componentPieces,
      hasWildcardChars]
  rw [accepts, hpieces, matchesFrom]

/-- A specification that consists of a root and names matches by its trail. -/
theorem accepts_ofNames {k : Nat} {names : List (List Char)} (exclude : Bool)
    (hk : k + 1 = 1 ∨ k + 1 = 2) (hne : names ≠ []) (h : ∀ n ∈ names, Path.IsName n)
    (path : String) : accepts exclude (Path.ofNames (k + 1) names) path =
      matchesFrom exclude (Path.trail (Path.ofNames (k + 1) names)) path.toList := by
  have htext : (Path.ofNames (k + 1) names).toList =
      '/' :: (List.replicate k '/' ++ Text.joinWith '/' names) := by
    rw [Path.toList_ofNames, Path.assemble_of_pos (Nat.succ_pos k), List.replicate_succ,
      List.cons_append]
  have hparts := Path.parts_assemble k hne h
  rw [← Path.toList_ofNames, htext, List.replicate_succ, List.cons_append] at hparts
  rw [accepts_eq_matchesFrom exclude htext, Path.trail_ofNames hk h, Nat.add_sub_cancel,
    ← (List.cons_eq_cons.mp hparts).2]

/-- **A specification takes a path component by component.** On normal paths below a single
slash, an include specification takes exactly the paths with whose components its own align, and
an exclude specification exactly the paths of which some first components align with its own. -/
theorem accepts_iff_aligns {spec path : String} (hspec : Path.isAbsolute spec)
    (hpath : Path.IsNormal path) (hroot : Path.rootLength path.toList = 1)
    (hline : '\n' ∉ path.toList) :
    (accepts false spec path ↔
      Aligns false (Path.parts spec.toList) (Path.parts path.toList)) ∧
    (accepts true spec path ↔
      ∃ lead, lead <+: Path.parts path.toList ∧ Aligns true (Path.parts spec.toList) lead) := by
  obtain ⟨specRest, hspecRest⟩ := Path.exists_cons_of_isAbsolute hspec
  obtain ⟨pathRest, hpathRest⟩ := Path.exists_cons_of_isAbsolute hpath.isAbsolute
  have hparts : Path.parts path.toList = [] :: Text.splitOnChar '/' pathRest := by
    rw [hpathRest]
    rfl
  have hspecParts : Path.parts spec.toList = [] :: Text.splitOnChar '/' specRest := by
    rw [hspecRest]
    rfl
  have htext : path.toList = headed '/' (Text.splitOnChar '/' pathRest) := by
    rw [Text.headed_splitOnChar, hpathRest]
  have hne : Text.splitOnChar '/' pathRest = [[]] ∨
      ∀ n ∈ Text.splitOnChar '/' pathRest, n ≠ [] := by
    rcases Path.parts_of_isNormal hpath hroot with h | ⟨names, hnames, h⟩
    · exact Or.inl (List.cons_eq_cons.mp (hparts.symm.trans h)).2
    · rw [(List.cons_eq_cons.mp (hparts.symm.trans h)).2]
      exact Or.inr fun n hn => (hnames n hn).ne_nil
  have hcomponents : ∀ c ∈ Text.splitOnChar '/' specRest, '/' ∉ c :=
    fun _ => Text.not_mem_of_mem_splitOnChar
  have hnames : ∀ n ∈ Text.splitOnChar '/' pathRest, '/' ∉ n :=
    fun _ => Text.not_mem_of_mem_splitOnChar
  rw [htext] at hline
  constructor
  · rw [accepts_eq_matchesFrom false hspecRest, htext, matchesFrom_include_iff hcomponents hnames
      hline, ← htext, hparts, hspecParts, aligns_empty_cons_iff]
    simp
  · rw [accepts_eq_matchesFrom true hspecRest, htext, matchesFrom_exclude_iff hcomponents hnames
      hline hne, ← htext, hparts, hspecParts, exists_lead_aligns_name_iff (by simp [anyDirsName])]
    simp [TakesName, hasWildcardChars]

/-- A directory is passed by `**`, a hidden one is not, and an exclude specification reaches
below what it aligns with. -/
theorem aligns_below_open_directory :
    Aligns false (Path.parts "/p/**/?*.ts".toList) (Path.parts "/p/gen/a.ts".toList) ∧
    ¬ Aligns false (Path.parts "/p/**/?*.ts".toList) (Path.parts "/p/.gen/a.ts".toList) ∧
    ∃ lead, lead <+: Path.parts "/p/.gen/a.ts".toList ∧
      Aligns true (Path.parts "/p/**/.g*".toList) lead := by
  refine ⟨?_, fun h => ?_, ?_⟩
  · exact (accepts_iff_aligns (by decide) ⟨by decide, by decide⟩ (by decide)
      (by decide)).1.mp (by decide)
  · exact absurd ((accepts_iff_aligns (by decide) ⟨by decide, by decide⟩ (by decide)
      (by decide)).1.mpr h) (by decide)
  · exact (accepts_iff_aligns (by decide) ⟨by decide, by decide⟩ (by decide)
      (by decide)).2.mp (by decide)

end TsProject.FileSpec

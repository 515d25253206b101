import Mathlib.Data.List.Infix
import Mathlib.Data.List.TakeWhile
import TsProject.Diagnostic.Output
import TsProject.Proofs.Path.Below
import TsProject.Proofs.Text.Blank
import TsProject.Proofs.Text.Lines
import TsProject.Proofs.Text.Numeral

/-!
# Heads of diagnostics

The first line of a diagnostic writes a place, where it has one, a category and a code in front
of its text. A place is text of a fixed form, `placeText`, and reading a line looks for the first
place that stands behind at least one character. A head comes back from its line, provided that
no other place can be found: neither in the name of the file (`parse?_placeText`) nor, where
there is no file, in the text (`parse?_kindText`).
-/

namespace TsProject

open Text (IsNumeral dropStart?)

/-! ### The form of a place -/

/-- A category and the digits of a code, as they stand in front of a text. -/
def kindText (category : Category) (code : List Char) : List Char :=
  category.text.toList ++ (" TS".toList ++ (code ++ ": ".toList))

/-- The digits of a line and of a column, a category and the digits of a code, as they stand
between the name of a file and a text. -/
def placeText (line column : List Char) (category : Category) (code : List Char) : List Char :=
  '(' :: (line ++ (',' :: (column ++ ("): ".toList ++ kindText category code))))

/-- **A place**: line, column and code are written by numerals. -/
inductive IsPlace : List Char → Prop
  | mk {line column code : List Char} (category : Category) :
      IsNumeral line → IsNumeral column → IsNumeral code →
        IsPlace (placeText line column category code)

/-- A place stands somewhere in the text. -/
def HoldsPlace (cs : List Char) : Prop := ∃ place, IsPlace place ∧ place <:+: cs

/-- A numeral holds no opening parenthesis. -/
theorem paren_not_mem_of_isNumeral {cs : List Char} (h : IsNumeral cs) : '(' ∉ cs :=
  fun hmem => absurd (h.isDecimal _ hmem) (by decide)

theorem paren_not_mem_kindText {category : Category} {code : List Char} (h : IsNumeral code) :
    '(' ∉ kindText category code := by
  have hcategory : '(' ∉ category.text.toList := by cases category <;> decide
  have hcode := paren_not_mem_of_isNumeral h
  simp only [kindText, List.mem_append, not_or]
  exact ⟨hcategory, by decide, hcode, by decide⟩

/-- A numeral holds no line break. -/
theorem isOneLine_of_isNumeral {cs : List Char} (h : IsNumeral cs) : Text.IsOneLine cs := by
  intro c hc
  have hdecimal := h.isDecimal c hc
  by_contra hbreak
  simp only [Text.isLineBreak, Bool.not_eq_false, Bool.or_eq_true, decide_eq_true_eq] at hbreak
  -- none of the breaks is a digit
  rcases hbreak with (((((((((rfl | rfl) | rfl) | rfl) | rfl) | rfl) | rfl) | rfl) | rfl) | rfl) <;>
    exact absurd hdecimal (by decide)

theorem isOneLine_kindText {category : Category} {code : List Char} (h : IsNumeral code) :
    Text.IsOneLine (kindText category code) := by
  have hcategory : Text.IsOneLine category.text.toList := by cases category <;> decide
  simp only [kindText, Text.isOneLine_append_iff]
  exact ⟨hcategory, by decide, isOneLine_of_isNumeral h, by decide⟩

theorem IsPlace.isOneLine {place : List Char} (h : IsPlace place) : Text.IsOneLine place := by
  obtain ⟨category, hline, hcolumn, hcode⟩ := h
  simp only [placeText, Text.isOneLine_append_iff, Text.isOneLine_cons_iff]
  exact ⟨by decide, isOneLine_of_isNumeral hline, by decide, isOneLine_of_isNumeral hcolumn,
    by decide, isOneLine_kindText hcode⟩

/-- A place begins at its only opening parenthesis. -/
theorem IsPlace.exists_cons {place : List Char} (h : IsPlace place) :
    ∃ rest, place = '(' :: rest ∧ '(' ∉ rest := by
  obtain ⟨category, hline, hcolumn, hcode⟩ := h
  refine ⟨_, rfl, ?_⟩
  simp only [List.mem_append, List.mem_cons, not_or]
  exact ⟨paren_not_mem_of_isNumeral hline, by decide, paren_not_mem_of_isNumeral hcolumn,
    by decide, paren_not_mem_kindText hcode⟩

/-- A text without an opening parenthesis holds no place. -/
theorem not_holdsPlace_of_not_mem {cs : List Char} (h : '(' ∉ cs) : ¬HoldsPlace cs := by
  rintro ⟨place, hplace, hwithin⟩
  obtain ⟨rest, rfl, -⟩ := hplace.exists_cons
  exact h (hwithin.subset List.mem_cons_self)

theorem HoldsPlace.mono {cs ds : List Char} (h : HoldsPlace cs) (hwithin : cs <:+: ds) :
    HoldsPlace ds :=
  let ⟨place, hplace, hin⟩ := h
  ⟨place, hplace, hin.trans hwithin⟩

/-- A place begins behind everything that holds no opening parenthesis. -/
theorem HoldsPlace.of_append {first cs : List Char} (h : HoldsPlace (first ++ cs))
    (hfirst : '(' ∉ first) : HoldsPlace cs := by
  obtain ⟨place, hplace, before, after, heq⟩ := h
  obtain ⟨rest, rfl, -⟩ := hplace.exists_cons
  rw [List.append_assoc] at heq
  rcases List.append_eq_append_iff.mp heq with ⟨more, hmore, hrest⟩ | ⟨more, -, hmore⟩
  · cases more with
    | nil => exact ⟨_, hplace, [], after, by simpa using hrest⟩
    | cons c more =>
      obtain rfl : '(' = c := (List.cons_eq_cons.mp hrest).1
      exact absurd (by rw [hmore]; simp) hfirst
  · exact ⟨_, hplace, more, after, by rw [List.append_assoc, ← hmore]⟩

namespace Head

/-! ### Reading a place -/

theorem digits?_append {run rest : List Char} (hrun : IsNumeral run)
    (hrest : ∀ c ∈ rest.head?, Text.isDecimal c = false) :
    digits? (run ++ rest) = some (run, rest) := by
  have htake : (run ++ rest).takeWhile Text.isDecimal = run := by
    rw [List.takeWhile_append_of_pos hrun.isDecimal]
    cases rest with
    | nil => simp
    | cons c rest => simp [hrest c rfl]
  simp [digits?, htake, hrun.ne_nil]

theorem of_digits?_eq_some {cs run rest : List Char} (h : digits? cs = some (run, rest)) :
    IsNumeral run ∧ cs = run ++ rest := by
  rw [digits?] at h
  split_ifs at h with hempty
  obtain ⟨rfl, rfl⟩ := Prod.mk.inj (Option.some.inj h)
  refine ⟨⟨by simpa using hempty, fun c hc => List.mem_takeWhile_imp hc⟩, ?_⟩
  have hprefix := List.takeWhile_prefix (l := cs) Text.isDecimal
  rw [List.prefix_iff_eq_append.mp hprefix]

theorem dropStart?_category (category other : Category) (rest : List Char) :
    dropStart? other.text.toList (category.text.toList ++ rest) =
      if other = category then some rest else none := by
  cases category <;> cases other <;> simp [Category.text, dropStart?]

/-- The words of categories tell them apart, so that the first that fits is the one written. -/
theorem findSome?_category {α : Type} (category : Category) (f : Category → Option α)
    (h : ∀ other, other ≠ category → f other = none) :
    Category.all.findSome? f = f category := by
  cases hf : f category <;> cases category <;>
    simp [Category.all, hf, h]

theorem kind?_kindText (category : Category) {code : List Char} (hcode : IsNumeral code)
    (message : List Char) :
    kind? (kindText category code ++ message) = some (category, code, message) := by
  have hdigits : digits? (code ++ (": ".toList ++ message)) =
      some (code, ": ".toList ++ message) :=
    digits?_append hcode (by simp; decide)
  rw [kind?, findSome?_category category, kindText]
  · simp only [List.append_assoc, Option.bind_eq_bind, Option.bind_some,
      Text.dropStart?_eq_some_iff.mpr rfl, hdigits]
    rfl
  · intro other hne
    rw [kindText, List.append_assoc, dropStart?_category, if_neg hne]
    rfl

theorem of_kind?_eq_some {cs code message : List Char} {category : Category}
    (h : kind? cs = some (category, code, message)) :
    IsNumeral code ∧ cs = kindText category code ++ message := by
  obtain ⟨found, -, h⟩ := List.exists_of_findSome?_eq_some h
  simp only [Option.bind_eq_bind, Option.bind_eq_some_iff] at h
  obtain ⟨first, hfirst, second, hsecond, ⟨digits, third⟩, hthird, fourth, hfourth, h⟩ := h
  obtain ⟨rfl, rfl, rfl⟩ : found = category ∧ digits = code ∧ fourth = message := by
    simpa using h
  obtain ⟨hcode, rfl⟩ := of_digits?_eq_some hthird
  obtain rfl : third = ": ".toList ++ fourth := Text.dropStart?_eq_some_iff.mp hfourth
  rw [Text.dropStart?_eq_some_iff] at hfirst hsecond
  refine ⟨hcode, ?_⟩
  rw [hfirst, hsecond, kindText]
  simp only [List.append_assoc]

theorem place?_placeText {line column code : List Char} (hline : IsNumeral line)
    (hcolumn : IsNumeral column) (category : Category) (hcode : IsNumeral code)
    (message : List Char) :
    place? (placeText line column category code ++ message) =
      some (line, column, category, code, message) := by
  have hcolumnDigits : digits? (column ++ ("): ".toList ++ (kindText category code ++ message))) =
      some (column, "): ".toList ++ (kindText category code ++ message)) :=
    digits?_append hcolumn (by simp; decide)
  have hlineDigits : digits? (line ++ ',' :: (column ++ ("): ".toList ++
      (kindText category code ++ message)))) =
        some (line, ',' :: (column ++ ("): ".toList ++ (kindText category code ++ message)))) :=
    digits?_append hline (by simp; decide)
  have hkind := kind?_kindText category hcode message
  simp only [place?, placeText, dropStart?, List.cons_append, List.append_assoc, if_true,
    Option.bind_eq_bind, Option.bind_some, hlineDigits, hcolumnDigits,
    Text.dropStart?_eq_some_iff.mpr rfl, hkind]
  rfl

theorem of_place?_eq_some {cs line column code message : List Char} {category : Category}
    (h : place? cs = some (line, column, category, code, message)) :
    (IsNumeral line ∧ IsNumeral column ∧ IsNumeral code) ∧
      cs = placeText line column category code ++ message := by
  simp only [place?, Option.bind_eq_bind, Option.bind_eq_some_iff] at h
  obtain ⟨first, hfirst, ⟨digits, second⟩, hsecond, third, hthird, ⟨digits', fourth⟩, hfourth,
    fifth, hfifth, ⟨found, digits'', last⟩, hlast, h⟩ := h
  obtain ⟨rfl, rfl, rfl, rfl, rfl⟩ :
      digits = line ∧ digits' = column ∧ found = category ∧ digits'' = code ∧ last = message := by
    simpa using h
  obtain ⟨hline, rfl⟩ := of_digits?_eq_some hsecond
  obtain ⟨hcolumn, rfl⟩ := of_digits?_eq_some hfourth
  obtain ⟨hcode, rfl⟩ := of_kind?_eq_some hlast
  obtain rfl : second = [','] ++ (digits' ++ fourth) := Text.dropStart?_eq_some_iff.mp hthird
  obtain rfl : fourth = "): ".toList ++ (kindText found digits'' ++ last) :=
    Text.dropStart?_eq_some_iff.mp hfifth
  rw [Text.dropStart?_eq_some_iff] at hfirst
  refine ⟨⟨hline, hcolumn, hcode⟩, ?_⟩
  rw [hfirst, placeText]
  simp only [List.append_assoc, List.cons_append, List.nil_append]

/-- A place stands somewhere exactly where one is read. -/
theorem holdsPlace_iff_exists_tail {cs : List Char} :
    HoldsPlace cs ↔ ∃ tail ∈ cs.tails, (place? tail).isSome := by
  constructor
  · rintro ⟨_, ⟨category, hline, hcolumn, hcode⟩, before, after, rfl⟩
    refine ⟨_, (List.mem_tails _ _).mpr ⟨before, (List.append_assoc _ _ _).symm⟩, ?_⟩
    rw [place?_placeText hline hcolumn category hcode, Option.isSome_some]
  · rintro ⟨tail, htail, hsome⟩
    obtain ⟨⟨line, column, category, code, message⟩, hplace⟩ := Option.isSome_iff_exists.mp hsome
    obtain ⟨⟨hline, hcolumn, hcode⟩, rfl⟩ := of_place?_eq_some hplace
    exact ⟨_, .mk category hline hcolumn hcode,
      (List.prefix_append _ _).isInfix.trans ((List.mem_tails _ _).mp htail).isInfix⟩

instance (cs : List Char) : Decidable (HoldsPlace cs) :=
  decidable_of_iff _ holdsPlace_iff_exists_tail.symm

/-- **No place is read** at the start of a text in which the first place is not. -/
theorem place?_append_eq_none {first rest : List Char} (hne : first ≠ [])
    (hfirst : ¬HoldsPlace first) (hrest : ∀ c ∈ rest.head?, c = '(') :
    place? (first ++ rest) = none := by
  cases hplace : place? (first ++ rest) with
  | none => rfl
  | some found =>
    obtain ⟨line, column, category, code, message⟩ := found
    obtain ⟨⟨hline, hcolumn, hcode⟩, heq⟩ := of_place?_eq_some hplace
    have hplace : IsPlace (placeText line column category code) := .mk category hline hcolumn hcode
    rcases List.append_eq_append_iff.mp heq with ⟨more, hmore, hmessage⟩ | ⟨more, hmore, -⟩
    · -- the place would go on behind `first`, past a second opening parenthesis
      cases more with
      | nil =>
        rw [List.append_nil] at hmore
        exact absurd ⟨_, hplace, hmore ▸ List.infix_refl _⟩ hfirst
      | cons c more =>
        obtain ⟨tail, htail, hparen⟩ := hplace.exists_cons
        obtain ⟨a, first, rfl⟩ := List.exists_cons_of_ne_nil hne
        obtain rfl : c = '(' := hrest c (by rw [hmessage]; rfl)
        rw [htail] at hmore
        refine absurd ?_ hparen
        rw [(List.cons_eq_cons.mp hmore).2]
        simp
    · exact absurd ⟨_, hplace, hmore ▸ (List.prefix_append _ _).isInfix⟩ hfirst

theorem located?_eq_none {name cs : List Char}
    (h : ∀ post, post <:+ cs → post ≠ [] → place? post = none) : located? name cs = none := by
  induction cs generalizing name with
  | nil => rfl
  | cons c cs ih =>
    have hrest : ∀ post, post <:+ cs → post ≠ [] → place? post = none :=
      fun post hpost => h post (hpost.trans (List.suffix_cons c cs))
    rw [located?, h _ List.suffix_rfl (List.cons_ne_nil c cs), ite_self]
    exact ih hrest

/-- **The first place** that stands behind a name is found. -/
theorem located?_append {name file rest : List Char}
    {found : List Char × List Char × Category × List Char × List Char}
    (hne : name.reverse ++ file ≠ [])
    (hfile : ∀ post, post <:+ file → post ≠ [] → place? (post ++ rest) = none)
    (hrest : place? rest = some found) :
    located? name (file ++ rest) = some (name.reverse ++ file, found) := by
  induction file generalizing name with
  | nil =>
    have hname : name.isEmpty = false := by simpa using hne
    cases rest with
    | nil => cases hrest
    | cons c rest =>
      rw [List.nil_append, located?, hrest, hname, List.append_nil]
      rfl
  | cons c file ih =>
    have hpost : ∀ post, post <:+ file → post ≠ [] → place? (post ++ rest) = none :=
      fun post hpost => hfile post (hpost.trans (List.suffix_cons c file))
    rw [List.cons_append, located?, ← List.cons_append,
      hfile _ List.suffix_rfl (List.cons_ne_nil c file), ite_self]
    have hname : (c :: name).reverse ++ file ≠ [] := by simp
    have hfound := ih hname hpost
    rw [List.reverse_cons, List.append_assoc] at hfound
    exact hfound

/-! ### Reading a head -/

theorem number_toString {n : Nat} (h : (toString n).length ≤ Json.maxDigits) :
    number (toString n).toList = .ok n := by
  rw [number, if_neg (by rw [String.length_toList]; omega), Text.natOfDigits_toString]

end Head

/-- **A file that can be printed**: a normal path of one line, without a blank at its end, which
is not taken for a shorter name and a place. -/
structure IsPrintableFile (file : String) : Prop where
  isNormal : Path.IsNormal file
  oneLine : Text.IsOneLine file.toList
  noBlankEnd : ∀ c ∈ file.toList.getLast?, Text.isBlank c = false
  noPlace : ¬HoldsPlace file.toList

namespace Head

theorem resolve_of_isPrintableFile {file : String} (h : IsPrintableFile file) (cwd : String) :
    resolve cwd file.toList = file := by
  obtain ⟨rest, hrest⟩ := Path.isAbsolute_iff.mp h.isNormal.isAbsolute
  have hlast := h.noBlankEnd
  have htrim : Text.trimChars file.toList = file.toList := by
    rw [hrest] at hlast ⊢
    exact Text.trimChars_eq_self (by decide) hlast
  rw [resolve, htrim, String.ofList_toList, Path.resolve_of_isNormal h.isNormal]

/-- **A head without a place** comes back. -/
theorem parse?_kindText (cwd : String) (category : Category) {code : Nat} {text : String}
    (hcode : (toString code).length ≤ Json.maxDigits) (htext : ¬HoldsPlace text.toList) :
    parse? cwd (kindText category (toString code).toList ++ text.toList) =
      .ok (some { category, code, text }) := by
  have hnumeral := Text.isNumeral_toString code
  have hnone : located? [] (kindText category (toString code).toList ++ text.toList) = none := by
    refine located?_eq_none fun post hpost hne => ?_
    refine (List.append_nil post).symm ▸ place?_append_eq_none hne (fun hplace => ?_) (by simp)
    exact htext ((hplace.mono hpost.isInfix).of_append (paren_not_mem_kindText hnumeral))
  simp only [parse?, hnone, kind?_kindText category hnumeral, number_toString hcode,
    String.ofList_toList]
  rfl

/-- **A head with a place** comes back. -/
theorem parse?_placeText (cwd : String) (category : Category) {line column code : Nat}
    {file : String} (text : String) (hfile : IsPrintableFile file)
    (hline : (toString line).length ≤ Json.maxDigits)
    (hcolumn : (toString column).length ≤ Json.maxDigits)
    (hcode : (toString code).length ≤ Json.maxDigits) :
    parse? cwd (file.toList ++ (placeText (toString line).toList (toString column).toList category
      (toString code).toList ++ text.toList)) =
        .ok (some { category, code, text, file := some file, line := some line
                    column := some column }) := by
  have hplace := place?_placeText (Text.isNumeral_toString line) (Text.isNumeral_toString column)
    category (Text.isNumeral_toString code) text.toList
  have hne : ([] : List Char).reverse ++ file.toList ≠ [] := by
    obtain ⟨rest, hrest⟩ := Path.isAbsolute_iff.mp hfile.isNormal.isAbsolute
    simp [hrest]
  have hlocated := located?_append hne (fun post hpost hpostNe => place?_append_eq_none hpostNe
    (fun hholds => hfile.noPlace (hholds.mono hpost.isInfix)) (by simp [placeText])) hplace
  simp only [parse?, hlocated, number_toString hline, number_toString hcolumn,
    number_toString hcode, String.ofList_toList, List.reverse_nil, List.nil_append,
    resolve_of_isPrintableFile hfile]
  rfl

end Head

end TsProject

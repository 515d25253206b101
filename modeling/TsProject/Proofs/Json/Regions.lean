import Mathlib.Data.List.TakeWhile
import TsProject.Proofs.Json.Comments
import TsProject.Proofs.Json.Positions

/-!
# What stripping blanks

A text is cut from left to right into **regions** (`Cuts`): strings, comments and single characters
of the code. Every text can be cut (`exists_cuts`), and the marks of the scan are those of the
regions (`marks_of_cuts`). Stripping goes region by region as well (`stripFrom_region`): it puts a
space at every position that `Blanks` names, which are those of the comments, but for their line
feeds, and of the trailing commas, and keeps every other character (`getElem?_stripFrom`).

So line feeds stay where they are, and an error in the stripped text is at a position of the text,
on its line and in its column: `stripChars_spec`.
-/

namespace TsProject.Json

/-- **A region** of a text: one character of the code, or the characters of a string with its
quotes, or those of a comment with its marks. -/
inductive Region where
  | code (c : Char)
  | string (cs : List Char)
  | comment (cs : List Char)

/-- The characters of a region. -/
def Region.chars : Region → List Char
  | .code c => [c]
  | .string cs => cs
  | .comment cs => cs

/-- **A region that `rest` follows.** A string runs to the first quote that is not behind a
backslash, a line comment up to a line feed, a block comment through the first end behind its first
two characters; without one of these, they run to the end of the text. -/
inductive IsRegion (rest : List Char) : Region → Prop
  | code {c : Char} : c ≠ '"' → ¬['/', '/'] <+: c :: rest → ¬['/', '*'] <+: c :: rest →
      IsRegion rest (.code c)
  | string {body : List Char} : IsBody body → IsRegion rest (.string ('"' :: (body ++ ['"'])))
  | openString {body : List Char} : IsBody body → rest = [] → IsRegion rest (.string ('"' :: body))
  /-- The last character of the text is a backslash in an open string. -/
  | openEscape {body : List Char} : IsBody body → rest = [] →
      IsRegion rest (.string ('"' :: (body ++ ['\\'])))
  | line {body : List Char} : '\n' ∉ body → (∀ c ∈ rest.head?, c = '\n') →
      IsRegion rest (.comment ('/' :: '/' :: body))
  | block {body : List Char} : ¬['*', '/'] <:+: body →
      IsRegion rest (.comment ('/' :: '*' :: (body ++ ['*', '/'])))
  | openBlock {body : List Char} : ¬['*', '/'] <:+: body → rest = [] →
      IsRegion rest (.comment ('/' :: '*' :: body))

/-- **A text is cut into regions**, from left to right. -/
inductive Cuts : List Char → List Region → Prop
  | nil : Cuts [] []
  | cons {r : Region} {rest : List Char} {regions : List Region} : IsRegion rest r →
      Cuts rest regions → Cuts (r.chars ++ rest) (r :: regions)

/-- **The next character closes** a list or an object, where comments and blanks do not count. -/
inductive NextCloses : List Region → Prop
  | here {c : Char} {regions : List Region} : c = '\x7d' ∨ c = ']' →
      NextCloses (.code c :: regions)
  | blank {c : Char} {regions : List Region} : Text.isBlank c → NextCloses regions →
      NextCloses (.code c :: regions)
  | comment {cs : List Char} {regions : List Region} : NextCloses regions →
      NextCloses (.comment cs :: regions)

/-- **The positions to blank**: a character of a comment that is no line feed, and a comma of the
code in front of what closes a list or an object. -/
inductive Blanks : List Region → (position : Nat) → Prop
  | comment {cs : List Char} {c : Char} {position : Nat} {regions : List Region} :
      cs[position]? = some c → c ≠ '\n' → Blanks (.comment cs :: regions) position
  | comma {regions : List Region} : NextCloses regions → Blanks (.code ',' :: regions) 0
  | later {r : Region} {regions : List Region} {position position' : Nat} :
      Blanks regions position → position' = r.chars.length + position →
      Blanks (r :: regions) position'

variable {cs rest : List Char} {regions : List Region} {r : Region}

/-! ### Cutting -/

/-- **How a string goes on** behind its quote: it is closed, or runs to the end of the text. -/
def EndsString (cs : List Char) : Prop :=
  (∃ body rest, IsBody body ∧ cs = body ++ '"' :: rest) ∨
    ∃ body, IsBody body ∧ (cs = body ∨ cs = body ++ ['\\'])

theorem EndsString.append {front : List Char}
    (hfront : ∀ body, IsBody body → IsBody (front ++ body)) (h : EndsString cs) :
    EndsString (front ++ cs) := by
  rcases h with ⟨body, rest, hbody, rfl⟩ | ⟨body, hbody, rfl | rfl⟩
  · exact .inl ⟨front ++ body, rest, hfront body hbody, by simp⟩
  · exact .inr ⟨front ++ cs, hfront cs hbody, .inl rfl⟩
  · exact .inr ⟨front ++ body, hfront body hbody, .inr (by simp)⟩

theorem endsString (cs : List Char) : EndsString cs := by
  match cs with
  | [] => exact .inr ⟨[], .nil, .inl rfl⟩
  | c :: cs =>
    by_cases hquote : c = '"'
    · subst hquote
      exact .inl ⟨[], cs, .nil, rfl⟩
    · by_cases hslash : c = '\\'
      · subst hslash
        match cs with
        | [] => exact .inr ⟨[], .nil, .inr rfl⟩
        | d :: cs =>
          have hfront : ∀ body, IsBody body → IsBody (['\\', d] ++ body) := fun _ => .escape
          exact (endsString cs).append hfront
      · have hfront : ∀ body, IsBody body → IsBody ([c] ++ body) := fun _ => .plain hquote hslash
        exact (endsString cs).append hfront

/-- A block comment is closed, or runs to the end of the text. -/
theorem exists_block (cs : List Char) :
    (∃ body rest, ¬['*', '/'] <:+: body ∧ cs = body ++ '*' :: '/' :: rest) ∨
      ¬['*', '/'] <:+: cs := by
  induction cs with
  | nil => exact .inr (by simp)
  | cons c cs ih =>
    by_cases hhere : ['*', '/'] <+: c :: cs
    · obtain ⟨rest, hrest⟩ := hhere
      exact .inl ⟨[], rest, by simp, hrest.symm⟩
    · rcases ih with ⟨body, rest, hbody, rfl⟩ | hnone
      · refine .inl ⟨c :: body, rest, ?_, rfl⟩
        rw [List.infix_cons_iff, not_or]
        exact ⟨fun hstart => hhere (hstart.trans (List.prefix_append (c :: body) _)), hbody⟩
      · rw [List.infix_cons_iff, not_or]
        exact .inr ⟨hhere, hnone⟩

/-- **A region is in front** of every text that is not empty. -/
theorem exists_isRegion (hne : cs ≠ []) :
    ∃ r rest, IsRegion rest r ∧ cs = r.chars ++ rest ∧ r.chars ≠ [] := by
  obtain ⟨c, cs, rfl⟩ := List.exists_cons_of_ne_nil hne
  by_cases hquote : c = '"'
  · subst hquote
    rcases endsString cs with ⟨body, rest, hbody, rfl⟩ | ⟨body, hbody, rfl | rfl⟩
    · exact ⟨_, rest, .string hbody, by simp [Region.chars], by simp [Region.chars]⟩
    · exact ⟨_, [], .openString hbody rfl, by simp [Region.chars], by simp [Region.chars]⟩
    · exact ⟨_, [], .openEscape hbody rfl, by simp [Region.chars], by simp [Region.chars]⟩
  by_cases hline : ['/', '/'] <+: c :: cs
  · obtain ⟨tail, htail⟩ := hline
    have hbody : '\n' ∉ tail.takeWhile (· ≠ '\n') := fun hmem => by
      simpa using List.mem_takeWhile_imp hmem
    have hrest : ∀ c ∈ (tail.dropWhile (· ≠ '\n')).head?, c = '\n' := by
      intro c hc
      have hnot := List.head?_dropWhile_not (· ≠ '\n') tail
      rw [Option.mem_def.mp hc] at hnot
      simpa using hnot
    refine ⟨_, _, .line hbody hrest, ?_, by simp [Region.chars]⟩
    have hsplit := List.takeWhile_append_dropWhile (p := (· ≠ '\n')) (l := tail)
    rw [← htail, Region.chars, List.cons_append, List.cons_append, List.cons_append,
      List.cons_append, hsplit]
    rfl
  by_cases hblock : ['/', '*'] <+: c :: cs
  · obtain ⟨tail, htail⟩ := hblock
    rw [← htail]
    rcases exists_block tail with ⟨body, rest, hbody, rfl⟩ | hbody
    · exact ⟨_, rest, .block hbody, by simp [Region.chars], by simp [Region.chars]⟩
    · exact ⟨_, [], .openBlock hbody rfl, by simp [Region.chars], by simp [Region.chars]⟩
  · exact ⟨.code c, cs, .code hquote hline hblock, rfl, by simp [Region.chars]⟩

/-- **Every text can be cut.** -/
theorem exists_cuts (cs : List Char) : ∃ regions, Cuts cs regions := by
  induction hlength : cs.length using Nat.strongRecOn generalizing cs with
  | ind n ih =>
    by_cases hnil : cs = []
    · exact ⟨[], hnil ▸ .nil⟩
    · obtain ⟨r, rest, hr, rfl, hchars⟩ := exists_isRegion hnil
      have hshorter : rest.length < n := by
        have hpos := List.length_pos_iff.mpr hchars
        rw [List.length_append] at hlength
        omega
      obtain ⟨regions, hregions⟩ := ih rest.length hshorter rest rfl
      exact ⟨r :: regions, .cons hr hregions⟩

/-! ### The scan -/

theorem marks_quote (cs : List Char) :
    marks .code ('"' :: cs) = ('"', .string) :: marks .string cs := by
  rw [marks]

theorem marks_slashes (cs : List Char) : marks .code ('/' :: '/' :: cs) =
    ('/', .comment) :: ('/', .comment) :: marks .lineComment cs := by
  rw [marks]

theorem marks_slashStar (cs : List Char) : marks .code ('/' :: '*' :: cs) =
    ('/', .comment) :: ('*', .comment) :: marks .blockComment cs := by
  rw [marks]

/-- A line comment ends in front of a line feed. -/
theorem marks_lineComment_of_head (h : ∀ c ∈ rest.head?, c = '\n') :
    marks .lineComment rest = marks .code rest := by
  cases rest with
  | nil => rfl
  | cons c rest =>
    obtain rfl := h c rfl
    rw [marks_code_cons (by decide) (by decide), marks]

/-- The marks of a region. -/
def Region.marked : Region → List (Char × Mark)
  | .code c => [(c, .code)]
  | .string cs => cs.map (·, .string)
  | .comment cs => cs.map (·, .comment)

/-- **The scan marks region by region.** -/
theorem marks_region (h : IsRegion rest r) :
    marks .code (r.chars ++ rest) = r.marked ++ marks .code rest := by
  cases h with
  | @code c hquote hline hblock =>
    have hslash : ∀ d cs, c = '/' → rest = d :: cs → d ≠ '/' ∧ d ≠ '*' := by
      rintro d cs rfl rfl
      simpa [eq_comm] using And.intro hline hblock
    rw [Region.chars, List.singleton_append, marks]
    · rfl
    · exact fun cs hc hcs => (hslash _ cs hc hcs).1 rfl
    · exact fun cs hc hcs => (hslash _ cs hc hcs).2 rfl
    · exact hquote
  | @string body hbody =>
    have hchars : (Region.string ('"' :: (body ++ ['"']))).chars ++ rest =
        '"' :: (body ++ '"' :: rest) := by simp [Region.chars]
    rw [hchars, marks_quote, marks_string hbody]
    rfl
  | @openString body hbody hrest =>
    subst hrest
    rw [Region.chars, List.cons_append, marks_quote, marks_body hbody]
    rfl
  | @openEscape body hbody hrest =>
    subst hrest
    rw [Region.chars, List.append_nil, marks_quote, marks_body hbody]
    simp [Region.marked, marks]
  | line hbody hrest =>
    rw [Region.chars, List.cons_append, List.cons_append, marks_slashes, marks_line hbody,
      marks_lineComment_of_head hrest]
    rfl
  | @block body hbody =>
    have hchars : (Region.comment ('/' :: '*' :: (body ++ ['*', '/']))).chars ++ rest =
        '/' :: '*' :: (body ++ '*' :: '/' :: rest) := by simp [Region.chars]
    rw [hchars, marks_slashStar, marks_blockComment hbody]
    rfl
  | @openBlock body hbody hrest =>
    subst hrest
    have hopen : ¬['*', '/'] <:+: body ++ [].take 1 := by simpa using hbody
    rw [Region.chars, List.cons_append, List.cons_append, marks_slashStar, marks_block hopen]
    rfl

theorem marks_of_cuts (h : Cuts cs regions) : marks .code cs = regions.flatMap Region.marked := by
  induction h with
  | nil => rfl
  | cons hr _ ih => rw [marks_region hr, ih, List.flatMap_cons]

/-! ### What is left of a region -/

/-- What stripping leaves of a region in front of the solid character `next`. -/
def Region.left (next : Option Char) : Region → List Char
  | .code c => [if c = ',' && closes next then ' ' else c]
  | .string cs => cs
  | .comment cs => cs.map fun c => if c = '\n' then c else ' '

/-- The next solid character from a region on, which stands in front of `next`. -/
def Region.solid (next : Option Char) : Region → Option Char
  | .code c => if Text.isBlank c then next else some c
  | .string cs => cs.head?.or next
  | .comment _ => next

theorem Region.length_left (next : Option Char) (r : Region) :
    (r.left next).length = r.chars.length := by
  cases r <;> simp [left, chars]

/-- **Stripping goes region by region.** -/
theorem stripFrom_region (h : IsRegion rest r) : stripFrom (r.chars ++ rest) =
    (r.left (stripFrom rest).2 ++ (stripFrom rest).1, r.solid (stripFrom rest).2) := by
  rw [stripFrom, marks_region h]
  cases r with
  | code c => rfl
  | string cs => exact blankMarked_string cs _
  | comment cs => exact blankMarked_comment cs _

theorem nextCloses_code_iff {c : Char} : NextCloses (.code c :: regions) ↔
    (c = '\x7d' ∨ c = ']') ∨ Text.isBlank c ∧ NextCloses regions := by
  constructor
  · rintro (hc | ⟨hblank, hnext⟩ | _)
    · exact .inl hc
    · exact .inr ⟨hblank, hnext⟩
  · rintro (hc | ⟨hblank, hnext⟩)
    · exact .here hc
    · exact .blank hblank hnext

/-- **The pass from the right** finds what closes next. -/
theorem closes_stripFrom_iff (h : Cuts cs regions) :
    closes (stripFrom cs).2 ↔ NextCloses regions := by
  induction h with
  | nil =>
    refine iff_of_false (by decide) ?_
    rintro ⟨⟩
  | @cons r rest regions hr _ ih =>
    rw [stripFrom_region hr]
    cases r with
    | code c =>
      rw [nextCloses_code_iff, ← ih]
      by_cases hblank : Text.isBlank c
      · have hopen : ¬(c = '\x7d' ∨ c = ']') := by
          rintro (rfl | rfl) <;> exact absurd hblank (by decide)
        simp [Region.solid, hblank, hopen]
      · simp [Region.solid, hblank, closes]
    | string cs =>
      -- a quote does not close anything
      have hhead : cs.head? = some '"' := by cases hr <;> rfl
      refine iff_of_false ?_ ?_
      · simp [Region.solid, hhead, closes]
      · rintro ⟨⟩
    | comment cs =>
      rw [Region.solid, ih]
      constructor
      · exact .comment
      · rintro (_ | _ | hnext)
        exact hnext

/-! ### Positions -/

theorem blanks_cons_iff_of_lt {position : Nat} (h : position < r.chars.length) :
    Blanks (r :: regions) position ↔
      (∃ cs c, r = .comment cs ∧ cs[position]? = some c ∧ c ≠ '\n') ∨
        r = .code ',' ∧ NextCloses regions := by
  constructor
  · intro hblanks
    cases hblanks with
    | comment hc hne => exact .inl ⟨_, _, rfl, hc, hne⟩
    | comma hnext => exact .inr ⟨rfl, hnext⟩
    | later _ hposition => omega
  · rintro (⟨cs, c, rfl, hc, hne⟩ | ⟨rfl, hnext⟩)
    · exact .comment hc hne
    · obtain rfl : position = 0 := Nat.lt_one_iff.mp h
      exact .comma hnext

theorem blanks_cons_iff_of_le {position : Nat} (h : r.chars.length ≤ position) :
    Blanks (r :: regions) position ↔ Blanks regions (position - r.chars.length) := by
  constructor
  · intro hblanks
    cases hblanks with
    | comment hc _ =>
      have hlt := (List.getElem?_eq_some_iff.mp hc).1
      exact absurd h (Nat.not_le.mpr hlt)
    | comma _ => exact absurd h (by simp [Region.chars])
    | @later _ _ i _ hblanks hposition =>
      have hi : position - r.chars.length = i := by omega
      exact hi ▸ hblanks
  · intro hblanks
    exact .later hblanks (by omega)

/-- What is left of a region at one of its positions. -/
theorem getElem?_left (h : Cuts rest regions) {position : Nat} (hlt : position < r.chars.length) :
    (Blanks (r :: regions) position → (r.left (stripFrom rest).2)[position]? = some ' ') ∧
      (¬Blanks (r :: regions) position →
        (r.left (stripFrom rest).2)[position]? = r.chars[position]?) := by
  rw [blanks_cons_iff_of_lt hlt, ← closes_stripFrom_iff h]
  cases r with
  | code c =>
    obtain rfl : position = 0 := Nat.lt_one_iff.mp hlt
    by_cases htrailing : c = ',' ∧ closes (stripFrom rest).2
    · simp [Region.left, htrailing]
    · have hkept : (Region.code c).left (stripFrom rest).2 = [c] := by
        rw [Region.left, if_neg (by simpa using htrailing)]
      simp only [hkept, Region.chars, Region.code.injEq, reduceCtorEq, false_and, exists_false,
        false_or]
      exact ⟨fun hblanks => absurd hblanks htrailing, fun _ => trivial⟩
  | string cs => simp [Region.left, Region.chars]
  | comment cs =>
    have hsome : cs[position]? = some cs[position] := List.getElem?_eq_getElem hlt
    by_cases hfeed : cs[position] = '\n' <;>
      simp [Region.left, Region.chars, hsome, hfeed]

/-- **What stripping does at each position.** -/
theorem getElem?_stripFrom (h : Cuts cs regions) (position : Nat) :
    (Blanks regions position → (stripFrom cs).1[position]? = some ' ') ∧
      (¬Blanks regions position → (stripFrom cs).1[position]? = cs[position]?) := by
  induction h generalizing position with
  | nil =>
    refine ⟨?_, fun _ => rfl⟩
    rintro ⟨⟩
  | @cons r rest regions hr hrest ih =>
    rw [stripFrom_region hr]
    have hlength := r.length_left (stripFrom rest).2
    by_cases hlt : position < r.chars.length
    · rw [List.getElem?_append_left (by omega), List.getElem?_append_left hlt]
      exact getElem?_left hrest hlt
    · have hle : r.chars.length ≤ position := Nat.le_of_not_lt hlt
      rw [List.getElem?_append_right (by omega), List.getElem?_append_right hle, hlength,
        blanks_cons_iff_of_le hle]
      exact ih (position - r.chars.length)

/-- **Line feeds stay.** -/
theorem map_blankMarked (ms : List (Char × Mark)) :
    (blankMarked ms).1.map (· == '\n') = ms.map (·.1 == '\n') := by
  induction ms with
  | nil => rfl
  | cons m ms ih =>
    obtain ⟨c, mark⟩ := m
    cases mark with
    | code =>
      by_cases hcomma : c = ','
      · subst hcomma
        simp only [blankMarked, List.map_cons, ih]
        split_ifs <;> rfl
      · simp [blankMarked, ih, hcomma]
    | string => simp [blankMarked, ih]
    | comment =>
      by_cases hfeed : c = '\n' <;> simp [blankMarked, ih, hfeed]

theorem map_stripChars (cs : List Char) :
    (stripChars cs).map (· == '\n') = cs.map (· == '\n') := by
  have hchars := congrArg (List.map (· == '\n')) (map_fst_marks .code cs)
  rw [stripChars, map_blankMarked, ← hchars, List.map_map]
  rfl

/-- **What stripping does to a text.** However the text is cut into regions, and it can be cut, a
space stands at each position to blank and the character of the text at every other one, of which
there are as many as in the text. So the line feeds are at the same positions, and an error in the
stripped text is at a position of the text, on the same line and in the same column. -/
theorem stripChars_spec (cs : List Char) :
    (∃ regions, Cuts cs regions) ∧
    (∀ regions, Cuts cs regions → ∀ position,
      (Blanks regions position → (stripChars cs)[position]? = some ' ') ∧
      (¬Blanks regions position → (stripChars cs)[position]? = cs[position]?)) ∧
    (stripChars cs).length = cs.length ∧
    (∀ position : Nat, (stripChars cs)[position]? = some '\n' ↔ cs[position]? = some '\n') ∧
    ∀ e, readChars (stripChars cs) = .error (.badSyntax e) → e.position ≤ cs.length ∧
      lineAndColumn (stripChars cs) e.position = lineAndColumn cs e.position := by
  have hfeeds := map_stripChars cs
  refine ⟨exists_cuts cs, fun regions hcuts => getElem?_stripFrom hcuts, length_stripChars cs,
    fun position => ?_, fun e he => ⟨?_, lineAndColumn_congr hfeeds e.position⟩⟩
  · have hfeed : ∀ ds : List Char,
        ds[position]? = some '\n' ↔ (ds.map (· == '\n'))[position]? = some true := by
      intro ds
      rw [List.getElem?_map]
      cases ds[position]? <;> simp
    rw [hfeed, hfeeds, ← hfeed]
  · have hposition := position_le_of_readChars he
    rwa [length_stripChars] at hposition

example : stripChars "[1, /* , */ \",]\", // ]\n]".toList =
    "[1,         \",]\"      \n]".toList := by
  decide +kernel

end TsProject.Json

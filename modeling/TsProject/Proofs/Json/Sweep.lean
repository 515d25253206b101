import TsProject.Proofs.Json.Regions

/-!
# Stripping in one pass

Comments and trailing commas can be blanked while a text is read once, from left to right. Whether
a comma is trailing is not known when it is met, so that its place in the output is kept until the
next solid character tells; if that closes a list or an object, the comma is blanked then
(`Sweep.patched`). `Sweep.loop` is this pass, and `loop_eq_stripChars` says that it leaves what the
scan and the pass from the right leave.

The loop takes a region at a time (`loop_region`). What it has put out, and what is to be put out
for the rest of the text, always make up the same output (`finish_region`): that the pending comma
lies within the output is the invariant behind it (`IsSound`).
-/

namespace TsProject.Json

/-- **The state of the pass**: what has been put out, and where in it the comma is that may turn out
to be trailing. -/
structure Sweep where
  out : List Char := []
  pending : Option Nat := none

namespace Sweep

/-! ### The loop -/

/-- Puts out characters as they are. -/
def put (s : Sweep) (cs : List Char) : Sweep := { s with out := s.out ++ cs }

/-- The output, the pending comma being blanked. -/
def patched (s : Sweep) : List Char :=
  match s.pending with
  | none => s.out
  | some place => s.out.set place ' '

/-- Puts out a character of the code. -/
def step (s : Sweep) (c : Char) : Sweep where
  out := (if c = '\x7d' || c = ']' then s.patched else s.out) ++ [c]
  pending := if c = ',' then some s.out.length else if Text.isBlank c then s.pending else none

/-- The characters of a comment, blanked. -/
def blanked (cs : List Char) : List Char := cs.map fun c => if c = '\n' then c else ' '

/-- How many characters of a block comment follow its first two, its end included. -/
def blockLength : List Char → Nat
  | [] => 0
  | '*' :: '/' :: _ => 2
  | _ :: rest => blockLength rest + 1

/-- **The pass** over the rest of a text, inside a string or in the code. -/
def loop : (inString : Bool) → Sweep → List Char → List Char
  | _, s, [] => s.out
  | true, s, '\\' :: c :: rest => loop true (s.put ['\\', c]) rest
  | true, s, c :: rest => loop (c ≠ '"') (s.put [c]) rest
  | false, s, '/' :: '/' :: rest =>
    loop false (s.put (blanked ('/' :: '/' :: rest.takeWhile (· ≠ '\n'))))
      (rest.dropWhile (· ≠ '\n'))
  | false, s, '/' :: '*' :: rest =>
    loop false (s.put (blanked ('/' :: '*' :: rest.take (blockLength rest))))
      (rest.drop (blockLength rest))
  | false, s, c :: rest => loop (c = '"') (s.step c) rest
termination_by _ _ cs => cs.length
decreasing_by
  all_goals simp only [List.length_cons, List.length_drop]
  any_goals omega
  have hle := (List.dropWhile_suffix (l := rest) (· ≠ '\n')).length_le
  omega

variable {s : Sweep} {cs rest body : List Char} {c : Char} {r : Region} {regions : List Region}

/-! ### Comments -/

theorem blockLength_append (h : ¬['*', '/'] <:+: body) :
    blockLength (body ++ '*' :: '/' :: rest) = body.length + 2 := by
  induction body with
  | nil => rfl
  | cons c body ih =>
    rw [List.infix_cons_iff, not_or] at h
    rw [List.cons_append, blockLength, ih h.2, List.length_cons]
    rintro tail rfl heq
    -- an end that begins here would begin in the body
    cases body with
    | nil => cases heq
    | cons d body => exact h.1 ⟨body, by rw [(List.cons.inj heq).1]; rfl⟩

theorem blockLength_of_not_infix (h : ¬['*', '/'] <:+: body) : blockLength body = body.length := by
  induction body with
  | nil => rfl
  | cons c body ih =>
    rw [List.infix_cons_iff, not_or] at h
    rw [blockLength, ih h.2, List.length_cons]
    rintro tail rfl rfl
    exact h.1 ⟨tail, rfl⟩

/-! ### One region at a time -/

/-- The state behind a region. -/
def region (s : Sweep) : Region → Sweep
  | .code c => s.step c
  | .string cs => { out := s.out ++ cs }
  | .comment cs => s.put (blanked cs)

theorem loop_code (hslashes : ∀ tail, c = '/' → rest ≠ '/' :: tail)
    (hslashStar : ∀ tail, c = '/' → rest ≠ '*' :: tail) :
    loop false s (c :: rest) = loop (c = '"') (s.step c) rest := by
  rw [loop]
  · exact fun tail hc => hslashes tail hc
  · exact fun tail hc => hslashStar tail hc

/-- Inside a string, its characters are put out as they are. -/
theorem loop_body (h : IsBody body) :
    loop true s (body ++ rest) = loop true (s.put body) rest := by
  induction h generalizing s with
  | nil => simp [put]
  | @plain c body hquote hslash _ ih =>
    rw [List.cons_append, loop]
    · simp [ih, put, hquote]
    · exact fun _ _ hc => absurd hc hslash
  | @escape c body _ ih =>
    rw [List.cons_append, List.cons_append, loop, ih]
    simp [put]

/-- What is put out of a string follows its first quote, which leaves no comma pending. -/
theorem loop_quote : loop false s ('"' :: rest) = loop true { out := s.out ++ ['"'] } rest := by
  have hblank : Text.isBlank '"' = false := by decide
  rw [loop_code (by simp) (by simp)]
  simp [step, hblank]

/-- A line comment is put out up to its line feed. -/
theorem loop_line (hbody : '\n' ∉ body) (hrest : ∀ c ∈ rest.head?, c = '\n') :
    loop false s ('/' :: '/' :: (body ++ rest)) =
      loop false (s.put (blanked ('/' :: '/' :: body))) rest := by
  have hline : ∀ c ∈ body, decide (c ≠ '\n') = true := fun c hc => by
    simpa using fun heq : c = '\n' => hbody (heq ▸ hc)
  rw [loop, List.takeWhile_append_of_pos hline, List.dropWhile_append_of_pos hline]
  cases rest with
  | nil => simp
  | cons c rest =>
    obtain rfl := hrest c rfl
    simp

/-- **The loop takes a region at a time.** -/
theorem loop_region (h : IsRegion rest r) :
    loop false s (r.chars ++ rest) = loop false (s.region r) rest := by
  cases h with
  | @code c hc hline hblock =>
    rw [Region.chars, List.singleton_append, loop_code, region, decide_eq_false hc]
    · rintro tail rfl rfl
      exact hline ⟨tail, rfl⟩
    · rintro tail rfl rfl
      exact hblock ⟨tail, rfl⟩
  | @string body hbody =>
    have hchars : (Region.string ('"' :: (body ++ ['"']))).chars ++ rest =
        '"' :: (body ++ '"' :: rest) := by simp [Region.chars]
    rw [hchars, loop_quote, loop_body hbody, loop]
    · simp [region, put]
    · simp
  | @openString body hbody hrest =>
    subst hrest
    rw [Region.chars, List.cons_append, loop_quote, loop_body hbody, loop, loop]
    simp [region, put]
  | @openEscape body hbody hrest =>
    subst hrest
    rw [Region.chars, List.append_nil, loop_quote, loop_body hbody, loop, loop, loop]
    · simp [region, put]
    · simp
  | line hbody hrest =>
    rw [Region.chars, List.cons_append, List.cons_append, loop_line hbody hrest, region]
  | @block body hbody =>
    have hchars : (Region.comment ('/' :: '*' :: (body ++ ['*', '/']))).chars ++ rest =
        '/' :: '*' :: (body ++ '*' :: '/' :: rest) := by simp [Region.chars]
    have hsplit : body ++ '*' :: '/' :: rest = body ++ ['*', '/'] ++ rest := by simp
    have hlength : (body ++ ['*', '/']).length = body.length + 2 := by simp
    rw [hchars, loop, blockLength_append hbody, hsplit, List.take_left' hlength,
      List.drop_left' hlength, region]
  | @openBlock body hbody hrest =>
    subst hrest
    have hblock : loop false s ('/' :: '*' :: body) =
        loop false (s.put (blanked ('/' :: '*' :: body.take (blockLength body))))
          (body.drop (blockLength body)) := by rw [loop]
    rw [Region.chars, List.append_nil, hblock, blockLength_of_not_infix hbody, List.take_length,
      List.drop_length, region]

/-! ### What is put out -/

/-- **The pending comma** is in the output. -/
def IsSound (s : Sweep) : Prop := ∀ place, s.pending = some place → place < s.out.length

/-- The output when the rest of the text has been put out. -/
def finish (s : Sweep) (cs : List Char) : List Char :=
  (if closes (stripFrom cs).2 then s.patched else s.out) ++ (stripFrom cs).1

theorem length_patched (s : Sweep) : s.patched.length = s.out.length := by
  rw [patched]
  cases s.pending with
  | none => rfl
  | some place => exact List.length_set

theorem patched_put (h : s.IsSound) (cs : List Char) : (s.put cs).patched = s.patched ++ cs := by
  rw [patched, patched, put]
  cases hpending : s.pending with
  | none => rfl
  | some place => exact List.set_append_left place ' ' (h place hpending)

theorem isSound_put (h : s.IsSound) (cs : List Char) : (s.put cs).IsSound := by
  intro place hplace
  have hlt := h place hplace
  rw [put, List.length_append]
  omega

theorem length_step (s : Sweep) (c : Char) : (s.step c).out.length = s.out.length + 1 := by
  rw [step, List.length_append]
  split_ifs <;> simp [length_patched]

theorem isSound_step (h : s.IsSound) (c : Char) : (s.step c).IsSound := by
  intro place hplace
  rw [length_step]
  rw [step] at hplace
  dsimp only at hplace
  split_ifs at hplace with hcomma hblank
  · obtain rfl := Option.some.inj hplace
    omega
  · exact (h place hplace).trans (Nat.lt_succ_self _)

theorem isSound_region (h : s.IsSound) (r : Region) : (s.region r).IsSound := by
  cases r with
  | code c => exact isSound_step h c
  | string cs => rintro place ⟨⟩
  | comment cs => exact isSound_put h _

/-- A comma is the pending one from then on. -/
theorem step_comma : s.step ',' = { out := s.out ++ [','], pending := some s.out.length } := by
  simp [step]

/-- What closes a list or an object blanks the pending comma. -/
theorem step_of_closes (h : closes (some c)) : s.step c = { out := s.patched ++ [c] } := by
  obtain rfl | rfl : c = '\x7d' ∨ c = ']' := by simpa [closes] using h
  · have hblank : Text.isBlank '\x7d' = false := by decide
    simp [step, hblank]
  · have hblank : Text.isBlank ']' = false := by decide
    simp [step, hblank]

/-- A blank leaves the pending comma as it is. -/
theorem step_of_isBlank (h : Text.isBlank c) : s.step c = s.put [c] := by
  have hne : ∀ d, Text.isBlank d = false → c ≠ d := by
    rintro d hd rfl
    rw [hd] at h
    cases h
  simp [step, put, h, hne '\x7d' (by decide), hne ']' (by decide), hne ',' (by decide)]

/-- Any other character says that no comma before it is trailing. -/
theorem step_of_solid (hcomma : c ≠ ',') (hcloses : ¬closes (some c)) (hblank : ¬Text.isBlank c) :
    s.step c = { out := s.out ++ [c] } := by
  have hopen : ¬(c = '\x7d' ∨ c = ']') := by simpa [closes] using hcloses
  simp [step, hcomma, hopen, hblank]

theorem finish_step (h : s.IsSound) (hr : IsRegion rest (.code c)) :
    (s.step c).finish rest = s.finish (c :: rest) := by
  have hstrip := stripFrom_region hr
  rw [Region.chars, List.singleton_append, Region.left, Region.solid] at hstrip
  rw [finish, finish, hstrip]
  dsimp only
  by_cases hcomma : c = ','
  · subst hcomma
    have hpatched : (s.step ',').patched = s.out ++ [' '] := by
      rw [step_comma, patched]
      dsimp only
      rw [List.set_append_right s.out.length ' ' le_rfl, Nat.sub_self, List.set_cons_zero]
    have hkept : closes (some ',') = false := by decide
    have hblank : Text.isBlank ',' = false := by decide
    rw [hpatched, step_comma, hblank]
    by_cases hnext : closes (stripFrom rest).2 <;> simp [hkept, hnext]
  by_cases hblank : Text.isBlank c
  · rw [step_of_isBlank hblank, patched_put h, put]
    by_cases hnext : closes (stripFrom rest).2 <;> simp [hblank, hcomma, hnext]
  by_cases hcloses : closes (some c)
  · rw [step_of_closes hcloses, patched]
    simp [hblank, hcloses, hcomma]
  · rw [step_of_solid hcomma hcloses hblank, patched]
    simp [hblank, hcloses, hcomma]

/-- **A region leaves the whole output as it is.** -/
theorem finish_region (h : s.IsSound) (hr : IsRegion rest r) :
    (s.region r).finish rest = s.finish (r.chars ++ rest) := by
  cases r with
  | code c => exact finish_step h hr
  | string cs =>
    -- a string begins with a quote, which closes nothing
    have hhead : cs.head? = some '"' := by cases hr <;> rfl
    have hkept : closes (some '"') = false := by decide
    rw [finish, finish, stripFrom_region hr, region, patched]
    simp [Region.left, Region.solid, hhead, hkept]
  | comment cs =>
    rw [finish, finish, stripFrom_region hr, region, patched_put h]
    by_cases hnext : closes (stripFrom rest).2 <;>
      simp [Region.left, Region.solid, put, blanked, hnext]

theorem loop_eq_finish (h : Cuts cs regions) (hs : s.IsSound) :
    loop false s cs = s.finish cs := by
  induction h generalizing s with
  | nil =>
    rw [loop]
    exact (List.append_nil s.out).symm
  | cons hr _ ih => rw [loop_region hr, ih (isSound_region hs _), finish_region hs hr]

/-- **One pass** leaves what the scan and the pass from the right leave. -/
theorem loop_eq_stripChars (cs : List Char) : loop false {} cs = stripChars cs := by
  obtain ⟨regions, hcuts⟩ := exists_cuts cs
  have hstart : IsSound {} := by rintro place ⟨⟩
  rw [loop_eq_finish hcuts hstart, finish]
  split_ifs <;> rfl

end Sweep

end TsProject.Json

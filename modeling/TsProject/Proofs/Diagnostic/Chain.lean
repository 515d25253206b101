import TsProject.Diagnostic.Basic
import TsProject.Proofs.Text.Lines

/-!
# Chains as lines

A chain is written as the text at its top and a line for every other text, two blanks for each
level in front (`toList_flatten_zero`). Putting such lines below the top, one after the other,
rebuilds the chain (`ofLines_preorderAll`): each text is put below the last one of the level
above. `graft` is what a whole run of lines does, which is to put chains behind everything else
at a level. Whatever the lines are, each comes behind those before it, at the level that their
depths leave it (`preorder_ofLines`), and so the chain is written (`ofLines_spec`).
-/

namespace TsProject

open Text (headed)

/-! ### Writing -/

/-- The line of a text at a depth. -/
def Chain.lineOf (line : Nat × String) : List Char :=
  List.replicate (2 * line.1) ' ' ++ line.2.toList

theorem toList_pushn (s : String) (c : Char) (n : Nat) :
    (s.pushn c n).toList = s.toList ++ List.replicate n c := by
  induction n with
  | zero => simp [String.pushn_eq_repeat_push, Nat.repeat]
  | succ n ih =>
    rw [String.pushn_eq_repeat_push] at ih ⊢
    rw [Nat.repeat, String.toList_push, ih, List.append_assoc, List.replicate_succ']

namespace Chain

mutual

/-- **A chain below the top** is written as its lines, a line feed in front of each. -/
theorem toList_flatten (depth : Nat) (c : Chain) :
    (flatten "\n" ((depth + 1 : Nat) : Int) c).toList =
      headed '\n' ((preorder (depth + 1) c).map lineOf) := by
  obtain ⟨text, next⟩ := c
  have hindent : ((depth + 1 : Nat) : Int) ≠ 0 := by omega
  have hnext := toList_flattenAll (depth + 1) next
  rw [flatten, if_neg hindent, preorder, List.map_cons, Text.headed_cons, ← hnext, lineOf]
  simp [toList_pushn]

theorem toList_flattenAll (depth : Nat) (cs : List Chain) :
    (flattenAll "\n" ((depth + 1 : Nat) : Int) cs).toList =
      headed '\n' ((preorderAll (depth + 1) cs).map lineOf) := by
  cases cs with
  | nil => rfl
  | cons c cs =>
    rw [flattenAll, String.toList_append, toList_flatten depth c, toList_flattenAll depth cs,
      preorderAll, List.map_append, Text.headed_append]

end

/-- **A chain** is written as the text at its top and the lines below it. -/
theorem toList_flatten_zero (c : Chain) :
    (c.flatten "\n" 0).toList =
      c.text.toList ++ headed '\n' ((preorderAll 1 c.next).map lineOf) := by
  obtain ⟨text, next⟩ := c
  have hnext := toList_flattenAll 0 next
  rw [flatten, if_pos rfl, Chain.text, Chain.next, ← hnext]
  simp

/-! ### Rebuilding -/

theorem modifyLast_concat {α : Type} (f : α → α) (xs : List α) (x : α) :
    modifyLast f (xs ++ [x]) = xs ++ [f x] := by
  induction xs with
  | nil => rfl
  | cons y xs ih =>
    cases xs with
    | nil => rfl
    | cons z xs => exact congrArg (y :: ·) ih

theorem modifyLast_id {α : Type} (xs : List α) : modifyLast id xs = xs := by
  rcases List.eq_nil_or_concat xs with rfl | ⟨before, x, rfl⟩
  · rfl
  · rw [List.concat_eq_append, modifyLast_concat, id]

theorem modifyLast_modifyLast {α : Type} (f g : α → α) (xs : List α) :
    modifyLast g (modifyLast f xs) = modifyLast (g ∘ f) xs := by
  rcases List.eq_nil_or_concat xs with rfl | ⟨before, x, rfl⟩
  · rfl
  · simp only [List.concat_eq_append, modifyLast_concat, Function.comp]

/-- The chain with others put behind everything else, `depth` levels below the children of the
top. -/
def graft (more : List Chain) : (depth : Nat) → Chain → Chain
  | 0, .node t cs => .node t (cs ++ more)
  | depth + 1, .node t cs => .node t (modifyLast (graft more depth) cs)

theorem insert_eq_graft (text : String) (depth : Nat) (c : Chain) :
    insert text depth c = graft [.node text []] depth c := by
  induction depth generalizing c with
  | zero =>
    obtain ⟨t, cs⟩ := c
    rfl
  | succ depth ih =>
    obtain ⟨t, cs⟩ := c
    rw [insert, graft, show insert text depth = graft [.node text []] depth from funext ih]

theorem graft_nil (depth : Nat) (c : Chain) : graft [] depth c = c := by
  induction depth generalizing c with
  | zero =>
    obtain ⟨t, cs⟩ := c
    simp [graft]
  | succ depth ih =>
    obtain ⟨t, cs⟩ := c
    rw [graft, show graft [] depth = id from funext ih, modifyLast_id]

/-- Chains put at one level come one after the other. -/
theorem graft_append (first second : List Chain) (depth : Nat) (c : Chain) :
    graft (first ++ second) depth c = graft second depth (graft first depth c) := by
  induction depth generalizing c with
  | zero =>
    obtain ⟨t, cs⟩ := c
    simp [graft]
  | succ depth ih =>
    obtain ⟨t, cs⟩ := c
    rw [graft, graft, graft, modifyLast_modifyLast]
    exact congrArg (fun f => Chain.node t (modifyLast f cs)) (funext ih)

/-- Chains put one level below the last one that was put become its children. -/
theorem graft_succ_graft (more cs : List Chain) (text : String) (depth : Nat) (c : Chain) :
    graft more (depth + 1) (graft [.node text cs] depth c) =
      graft [.node text (cs ++ more)] depth c := by
  induction depth generalizing c with
  | zero =>
    obtain ⟨t, bs⟩ := c
    simp only [graft, modifyLast_concat]
  | succ depth ih =>
    obtain ⟨t, bs⟩ := c
    rw [graft, graft, graft, modifyLast_modifyLast]
    exact congrArg (fun f => Chain.node t (modifyLast f bs)) (funext ih)

/-- One line put below the head; beside the chain, the level of the last line. -/
def putLine (state : Chain × Nat) (line : Nat × String) : Chain × Nat :=
  let level := max 1 (min line.1 (state.2 + 1))
  (state.1.insert line.2 (level - 1), level)

theorem ofLines_eq_foldl (head : String) (lines : List (Nat × String)) :
    ofLines head lines = (lines.foldl putLine (.node head [], 0)).1 := rfl

/-- A line at most one level below the last one is put where its depth says. -/
theorem putLine_of_le {depth level : Nat} (h : depth ≤ level) (c : Chain) (text : String) :
    putLine (c, level) (depth + 1, text) = (graft [.node text []] depth c, depth + 1) := by
  have hlevel : max 1 (min (depth + 1) (level + 1)) = depth + 1 := by omega
  simp only [putLine, hlevel, Nat.add_sub_cancel, insert_eq_graft]

mutual

/-- **The lines of a chain** put the chain at its level, and end at that level or below. -/
theorem exists_foldl_preorder (c : Chain) {depth level : Nat} (h : depth ≤ level)
    (top : Chain) : ∃ last, depth + 1 ≤ last ∧
      (preorder (depth + 1) c).foldl putLine (top, level) = (graft [c] depth top, last) := by
  obtain ⟨text, next⟩ := c
  obtain ⟨last, hlast, hnext⟩ :=
    exists_foldl_preorderAll next (Nat.le_refl (depth + 1)) (graft [.node text []] depth top)
  refine ⟨last, hlast, ?_⟩
  rw [preorder, List.foldl_cons, putLine_of_le h, hnext, graft_succ_graft, List.nil_append]

theorem exists_foldl_preorderAll (cs : List Chain) {depth level : Nat} (h : depth ≤ level)
    (top : Chain) : ∃ last, depth ≤ last ∧
      (preorderAll (depth + 1) cs).foldl putLine (top, level) = (graft cs depth top, last) := by
  cases cs with
  | nil =>
    refine ⟨level, h, ?_⟩
    have hnone : graft [] depth top = top := graft_nil depth top
    rw [preorderAll, hnone]
    rfl
  | cons c cs =>
    obtain ⟨middle, hmiddle, hfirst⟩ := exists_foldl_preorder c h top
    obtain ⟨last, hlast, hrest⟩ :=
      exists_foldl_preorderAll cs (Nat.le_of_succ_le hmiddle) (graft [c] depth top)
    refine ⟨last, hlast, ?_⟩
    rw [preorderAll, List.foldl_append, hfirst, hrest, ← graft_append, List.singleton_append]

end

/-- **Rebuilding a chain** from the lines below its top. -/
theorem ofLines_preorderAll (c : Chain) : ofLines c.text (preorderAll 1 c.next) = c := by
  obtain ⟨text, next⟩ := c
  obtain ⟨last, -, hlines⟩ :=
    exists_foldl_preorderAll next (Nat.le_refl 0) (.node text [])
  rw [Chain.text, Chain.next, ofLines_eq_foldl, hlines, graft, List.nil_append]

/-! ### Reading order -/

theorem preorderAll_append (depth : Nat) (first second : List Chain) :
    preorderAll depth (first ++ second) = preorderAll depth first ++ preorderAll depth second := by
  induction first with
  | nil => rfl
  | cons c first ih => rw [List.cons_append, preorderAll, preorderAll, ih, List.append_assoc]

/-- **The last text is at a level** below the top, or further down. -/
inductive GoesDown : Chain → (level : Nat) → Prop
  | top (c : Chain) : GoesDown c 0
  | last {c : Chain} {level : Nat} (text : String) (before : List Chain) : GoesDown c level →
      GoesDown (.node text (before ++ [c])) (level + 1)

theorem GoesDown.mono {c : Chain} {level lower : Nat} (h : GoesDown c level) (hle : lower ≤ level) :
    GoesDown c lower := by
  induction h generalizing lower with
  | top c =>
    obtain rfl := Nat.le_zero.mp hle
    exact .top c
  | last text before _ ih =>
    cases lower with
    | zero => exact .top _
    | succ lower => exact .last text before (ih (Nat.le_of_succ_le_succ hle))

/-- A text that is put below the last one comes last in reading order. -/
theorem GoesDown.preorder_insert {c : Chain} {level : Nat} (h : GoesDown c level) (text : String)
    (depth : Nat) :
    preorder depth (insert text level c) = preorder depth c ++ [(depth + level + 1, text)] := by
  induction h generalizing depth with
  | top c =>
    obtain ⟨t, cs⟩ := c
    rw [insert, preorder, preorder, preorderAll_append]
    rfl
  | @last c level t before _ ih =>
    have hdepth : depth + 1 + level + 1 = depth + (level + 1) + 1 := by omega
    have hone : ∀ c, preorderAll (depth + 1) [c] = preorder (depth + 1) c :=
      fun _ => List.append_nil _
    rw [insert, modifyLast_concat, preorder, preorder, preorderAll_append, preorderAll_append,
      hone, hone, ih, hdepth, List.cons_append, List.append_assoc]

theorem GoesDown.insert {c : Chain} {level : Nat} (h : GoesDown c level) (text : String) :
    GoesDown (Chain.insert text level c) (level + 1) := by
  induction h with
  | top c =>
    obtain ⟨t, cs⟩ := c
    exact .last t cs (.top _)
  | @last c level t before _ ih =>
    rw [Chain.insert, modifyLast_concat]
    exact .last t before ih

/-- **The levels of lines** below a line at `level`: each lies at least one level below the head
and at most one level below the line before it. -/
def leveled (level : Nat) : List (Nat × String) → List (Nat × String)
  | [] => []
  | (depth, text) :: lines =>
    (max 1 (min depth (level + 1)), text) :: leveled (max 1 (min depth (level + 1))) lines

theorem map_snd_leveled (level : Nat) (lines : List (Nat × String)) :
    (leveled level lines).map (·.2) = lines.map (·.2) := by
  induction lines generalizing level with
  | nil => rfl
  | cons line lines ih => rw [leveled, List.map_cons, List.map_cons, ih]

/-- Lines come behind everything else, in their order. -/
theorem preorder_foldl_putLine {c : Chain} {level : Nat} (h : GoesDown c level)
    (lines : List (Nat × String)) :
    preorder 0 (lines.foldl putLine (c, level)).1 = preorder 0 c ++ leveled level lines := by
  induction lines generalizing c level with
  | nil => simp [leveled]
  | cons line lines ih =>
    obtain ⟨depth, text⟩ := line
    have hup : GoesDown c (max 1 (min depth (level + 1)) - 1) := h.mono (by omega)
    have hlevel : max 1 (min depth (level + 1)) - 1 + 1 = max 1 (min depth (level + 1)) := by omega
    have hnext := hup.insert text
    rw [hlevel] at hnext
    rw [List.foldl_cons, putLine]
    dsimp only
    rw [ih hnext, hup.preorder_insert text 0, leveled, Nat.zero_add, hlevel]
    simp

/-- **The reading order of lines put together** is their own, below the head. -/
theorem preorder_ofLines (head : String) (lines : List (Nat × String)) :
    preorder 0 (ofLines head lines) = (0, head) :: leveled 0 lines := by
  rw [ofLines_eq_foldl, preorder_foldl_putLine (.top _)]
  rfl

/-! ### Levels -/

/-- **The levels of lines**, by their depths: the first is 1, and each other one is the depth of
its line, but at least 1 and at most one more than the level before it. -/
structure AreLevels (depths levels : List Nat) : Prop where
  length_eq : levels.length = depths.length
  first (h : 0 < levels.length) : levels[0] = 1
  next (i : Nat) (h : i + 1 < levels.length) (h' : i + 1 < depths.length) :
    levels[i + 1] = max 1 (min depths[i + 1] (levels[i] + 1))

theorem preorder_zero (c : Chain) : preorder 0 c = (0, c.text) :: preorderAll 1 c.next := by
  obtain ⟨text, next⟩ := c
  rfl

theorem length_leveled (level : Nat) (lines : List (Nat × String)) :
    (leveled level lines).length = lines.length := by
  have htexts := congrArg List.length (map_snd_leveled level lines)
  rwa [List.length_map, List.length_map] at htexts

/-- The level of a line depends on the one before it. -/
theorem getElem_succ_leveled {level i : Nat} {lines : List (Nat × String)}
    (h : i + 1 < (leveled level lines).length) (h' : i + 1 < lines.length) :
    (leveled level lines)[i + 1].1 =
      max 1 (min lines[i + 1].1 ((leveled level lines)[i].1 + 1)) := by
  induction lines generalizing level i with
  | nil => simp at h'
  | cons line lines ih =>
    cases i with
    | zero =>
      obtain ⟨next, lines, rfl⟩ := List.exists_cons_of_length_pos (Nat.lt_of_succ_lt_succ h')
      rfl
    | succ i => exact ih (Nat.lt_of_succ_lt_succ h) (Nat.lt_of_succ_lt_succ h')

theorem areLevels_leveled (lines : List (Nat × String)) :
    AreLevels (lines.map (·.1)) ((leveled 0 lines).map (·.1)) where
  length_eq := by rw [List.length_map, List.length_map, length_leveled]
  first h := by
    rw [List.length_map, length_leveled] at h
    obtain ⟨line, lines, rfl⟩ := List.exists_cons_of_length_pos h
    have hone : max 1 (min line.1 (0 + 1)) = 1 := by omega
    exact hone
  next i h h' := by
    rw [List.length_map] at h h'
    rw [List.getElem_map, List.getElem_map, List.getElem_map]
    exact getElem_succ_leveled h h'

/-- **Lines put together**, specified. In reading order their texts come behind the head, in the
order of the lines and at levels that follow from the depths alone, and the chain is written as
the head and a line for each text, two blanks for each level in front. The texts of a chain with
their depths give the chain back. -/
theorem ofLines_spec (head : String) (lines : List (Nat × String)) :
    ∃ levels, AreLevels (lines.map (·.1)) levels ∧
      preorder 0 (ofLines head lines) = (0, head) :: levels.zip (lines.map (·.2)) ∧
      ((ofLines head lines).flatten "\n" 0).toList =
        head.toList ++ headed '\n' ((levels.zip (lines.map (·.2))).map lineOf) ∧
      ∀ c : Chain, ofLines c.text (preorder 0 c).tail = c := by
  have hzip : leveled 0 lines = ((leveled 0 lines).map (·.1)).zip (lines.map (·.2)) :=
    List.zip_of_prod rfl (map_snd_leveled 0 lines)
  have horder := preorder_ofLines head lines
  obtain ⟨hhead, hbelow⟩ := List.cons_eq_cons.mp ((preorder_zero _).symm.trans horder)
  refine ⟨_, areLevels_leveled lines, ?_, ?_, ?_⟩
  · rw [horder, ← hzip]
  · rw [toList_flatten_zero, (Prod.mk.inj hhead).2, hbelow, ← hzip]
  · intro c
    rw [preorder_zero, List.tail_cons, ofLines_preorderAll]

/-- A line that is indented too far comes one level below the line before it, and one that is not
indented at all comes one level below the head. -/
example : preorder 0 (ofLines "a" [(3, "b"), (5, "c"), (5, "d"), (0, "e")]) =
    [(0, "a"), (1, "b"), (2, "c"), (3, "d"), (1, "e")] := rfl

end Chain

end TsProject

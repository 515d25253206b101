import TsProject.Path
import TsProject.Proofs.Text.Split

/-!
# Normal forms of absolute paths

The normal form of an absolute path is a root of one or two slashes and a list of **names**:
components that are not empty, not `.`, not `..`. `isNormal_iff` says that the absolute paths
that are their own normal form are exactly the texts of a root and names, `isNormal_normalize`
that normalizing an absolute path leads to one of them, and `assemble_inj` that root and names
are determined by the text. Everything about such paths is then said about their names.
-/

namespace TsProject.Path

open Text (headed splitOnChar)

/-! ### Names -/

/-- A **name**: a component that leads one directory down. -/
structure IsName (part : List Char) : Prop where
  ne_nil : part ≠ []
  ne_dot : part ≠ ['.']
  ne_up : part ≠ up
  noSlash : '/' ∉ part

instance (part : List Char) : Decidable (IsName part) :=
  decidable_of_iff (part ≠ [] ∧ part ≠ ['.'] ∧ part ≠ up ∧ '/' ∉ part)
    ⟨fun ⟨hnil, hdot, hup, hslash⟩ => ⟨hnil, hdot, hup, hslash⟩,
      fun ⟨hnil, hdot, hup, hslash⟩ => ⟨hnil, hdot, hup, hslash⟩⟩

theorem IsName.isIdle_eq_false {part : List Char} (h : IsName part) : isIdle part = false := by
  simp [isIdle, h.ne_nil, h.ne_dot]

theorem IsName.exists_cons {part : List Char} (h : IsName part) :
    ∃ c rest, part = c :: rest ∧ c ≠ '/' := by
  cases part with
  | nil => exact absurd rfl h.ne_nil
  | cons c rest => exact ⟨c, rest, rfl, fun hc => h.noSlash (by simp [hc])⟩

/-- A name goes on top of the stack. -/
theorem push_of_isName {part : List Char} (h : IsName part) (rooted : Bool)
    (stack : List (List Char)) : push rooted stack part = part :: stack := by
  simp [push, h.isIdle_eq_false, h.ne_up]

theorem foldl_push_of_isName {names : List (List Char)} (h : ∀ n ∈ names, IsName n)
    (rooted : Bool) (stack : List (List Char)) :
    names.foldl (push rooted) stack = names.reverse ++ stack := by
  induction names generalizing stack with
  | nil => rfl
  | cons name names ih =>
    rw [List.foldl_cons, push_of_isName (h name (by simp)), ih fun n hn => h n (by simp [hn])]
    simp

/-- Below a root the stack holds names only. -/
theorem isName_of_mem_push {stack : List (List Char)} {part : List Char}
    (hstack : ∀ n ∈ stack, IsName n) (hpart : '/' ∉ part) :
    ∀ n ∈ push true stack part, IsName n := by
  intro n hn
  unfold push at hn
  split at hn
  · exact hstack n hn
  · rename_i hidle
    split at hn
    · rename_i hup
      rcases List.mem_cons.mp hn with rfl | hn
      · simp only [isIdle, Bool.or_eq_true, decide_eq_true_eq, not_or] at hidle
        exact ⟨hidle.1, hidle.2, hup, hpart⟩
      · exact hstack n hn
    · split at hn
      · simp at hn
      · rename_i top rest
        split at hn
        · rename_i htop
          exact absurd htop (hstack top (by simp)).ne_up
        · exact hstack n (by simp [hn])

theorem isName_of_mem_foldl_push {parts stack : List (List Char)}
    (hstack : ∀ n ∈ stack, IsName n) (hparts : ∀ p ∈ parts, '/' ∉ p) :
    ∀ n ∈ parts.foldl (push true) stack, IsName n := by
  induction parts generalizing stack with
  | nil => exact hstack
  | cons part parts ih =>
    exact ih (isName_of_mem_push hstack (hparts part (by simp)))
      fun p hp => hparts p (by simp [hp])

/-! ### The text of a root and names -/

theorem assemble_of_pos {root : Nat} (hroot : 0 < root) (components : List (List Char)) :
    assemble root components = List.replicate root '/' ++ Text.joinWith '/' components := by
  obtain ⟨k, rfl⟩ : ∃ k, root = k + 1 := ⟨root - 1, by omega⟩
  simp [assemble, List.replicate_succ]

@[simp] theorem assemble_succ_nil (k : Nat) :
    assemble (k + 1) [] = List.replicate (k + 1) '/' := by
  simp [assemble_of_pos, Text.joinWith]

/-- Behind a root every name has a slash in front. -/
theorem assemble_succ_cons (k : Nat) (name : List Char) (names : List (List Char)) :
    assemble (k + 1) (name :: names) = List.replicate k '/' ++ headed '/' (name :: names) := by
  rw [assemble_of_pos (Nat.succ_pos k), Text.joinWith_cons, List.replicate_succ']
  simp

theorem splitOnChar_replicate_append {sep : Char} (k : Nat) (cs : List Char) :
    splitOnChar sep (List.replicate k sep ++ cs) = List.replicate k [] ++ splitOnChar sep cs := by
  induction k with
  | zero => rfl
  | succ k ih => simp [List.replicate_succ, splitOnChar, ih]

/-- The components of the text of a root and names: an empty one for every slash of the root,
then the names. -/
theorem parts_assemble {names : List (List Char)} (k : Nat) (hne : names ≠ [])
    (h : ∀ n ∈ names, IsName n) :
    parts (assemble (k + 1) names) = List.replicate (k + 1) [] ++ names := by
  cases names with
  | nil => exact absurd rfl hne
  | cons name names =>
    rw [assemble_succ_cons, parts, splitOnChar_replicate_append, List.replicate_succ',
      List.append_assoc]
    have hsplit : splitOnChar '/' ([] ++ headed '/' (name :: names)) = [] :: name :: names :=
      Text.splitOnChar_headed (by simp) fun p hp => (h p hp).noSlash
    exact congrArg _ hsplit

theorem parts_replicate (k : Nat) : parts (List.replicate k '/') = List.replicate (k + 1) [] := by
  have h : splitOnChar '/' (List.replicate k '/' ++ []) = _ := splitOnChar_replicate_append k []
  rw [List.append_nil] at h
  rw [parts, h, List.replicate_succ']
  rfl

theorem solidParts_assemble {names : List (List Char)} (k : Nat) (h : ∀ n ∈ names, IsName n) :
    solidParts (assemble (k + 1) names) = names := by
  have hidle : ∀ m, (List.replicate m ([] : List Char)).filter (!isIdle ·) = [] := fun m => by
    simp [isIdle]
  by_cases hne : names = []
  · rw [solidParts, hne, assemble_succ_nil, parts_replicate, hidle]
  · rw [solidParts, parts_assemble k hne h, List.filter_append, hidle, List.nil_append,
      List.filter_eq_self]
    exact fun n hn => by simp [(h n hn).isIdle_eq_false]

/-- One or two slashes are the root of their text. -/
theorem rootLength_assemble {root : Nat} {names : List (List Char)} (hroot : root = 1 ∨ root = 2)
    (h : ∀ n ∈ names, IsName n) : rootLength (assemble root names) = root := by
  cases names with
  | nil => rcases hroot with rfl | rfl <;> rfl
  | cons name names =>
    obtain ⟨c, rest, rfl, hc⟩ := (h name (by simp)).exists_cons
    rcases hroot with rfl | rfl
    · simp [assemble_succ_cons, rootLength, hc]
    · simp [assemble_succ_cons, List.replicate_succ, rootLength, hc]

/-- **Root and names are determined by the text.** -/
theorem assemble_inj {root root' : Nat} {names names' : List (List Char)}
    (hroot : root = 1 ∨ root = 2) (hroot' : root' = 1 ∨ root' = 2)
    (h : ∀ n ∈ names, IsName n) (h' : ∀ n ∈ names', IsName n)
    (heq : assemble root names = assemble root' names') : root = root' ∧ names = names' := by
  have hk : root = root' := by
    rw [← rootLength_assemble hroot h, heq, rootLength_assemble hroot' h']
  obtain ⟨k, rfl⟩ : ∃ k, root = k + 1 := ⟨root - 1, by omega⟩
  obtain ⟨k', rfl⟩ : ∃ k', root' = k' + 1 := ⟨root' - 1, by omega⟩
  refine ⟨hk, ?_⟩
  rw [← solidParts_assemble k h, heq, solidParts_assemble k' h']

/-! ### Normal forms -/

theorem rootLength_le_two (cs : List Char) : rootLength cs ≤ 2 := by
  unfold rootLength
  split <;> omega

theorem rootLength_eq_one_or_two {cs : List Char} (h : rootLength cs ≠ 0) :
    rootLength cs = 1 ∨ rootLength cs = 2 := by
  have := rootLength_le_two cs
  omega

/-- The paths with a root are those that begin with a slash. -/
theorem rootLength_ne_zero_iff {cs : List Char} :
    rootLength cs ≠ 0 ↔ ∃ rest, cs = '/' :: rest := by
  constructor
  · intro h
    cases cs with
    | nil => exact absurd rfl h
    | cons c rest =>
      by_cases hc : c = '/'
      · exact ⟨rest, by rw [hc]⟩
      · simp [rootLength, hc] at h
  · rintro ⟨rest, rfl⟩
    unfold rootLength
    split <;> simp_all

theorem exists_cons_of_isAbsolute {path : String} (h : isAbsolute path) :
    ∃ rest, path.toList = '/' :: rest :=
  rootLength_ne_zero_iff.mp (by simpa [isAbsolute] using h)

/-- The names that an absolute path comes down to. -/
def normalNames (cs : List Char) : List (List Char) := ((parts cs).foldl (push true) []).reverse

theorem isName_of_mem_normalNames {cs : List Char} : ∀ n ∈ normalNames cs, IsName n := by
  intro n hn
  refine isName_of_mem_foldl_push (by simp) (fun p hp => ?_) n (List.mem_reverse.mp hn)
  exact Text.not_mem_of_mem_splitOnChar hp

theorem normalizeChars_eq {cs : List Char} (h : rootLength cs ≠ 0) :
    normalizeChars cs = assemble (rootLength cs) (normalNames cs) := by
  simp [normalizeChars, normalNames, h]

theorem normalNames_assemble {names : List (List Char)} (k : Nat) (h : ∀ n ∈ names, IsName n) :
    normalNames (assemble (k + 1) names) = names := by
  have hidle : ∀ m stack, (List.replicate m ([] : List Char)).foldl (push true) stack = stack := by
    intro m
    induction m with
    | zero => exact fun _ => rfl
    | succ m ih => exact fun stack => by simp [List.replicate_succ, push, isIdle, ih]
  by_cases hne : names = []
  · rw [normalNames, hne, assemble_succ_nil, parts_replicate, hidle, List.reverse_nil]
  · rw [normalNames, parts_assemble k hne h, List.foldl_append, hidle, foldl_push_of_isName h]
    simp

/-- An absolute path that is its own normal form. -/
structure IsNormal (path : String) : Prop where
  isAbsolute : isAbsolute path
  normalize_eq : normalize path = path

instance (path : String) : Decidable (IsNormal path) :=
  decidable_of_iff (Path.isAbsolute path ∧ normalize path = path)
    ⟨fun ⟨habsolute, hnormal⟩ => ⟨habsolute, hnormal⟩,
      fun ⟨habsolute, hnormal⟩ => ⟨habsolute, hnormal⟩⟩

theorem rootLength_of_isAbsolute {path : String} (h : isAbsolute path) :
    rootLength path.toList = 1 ∨ rootLength path.toList = 2 :=
  rootLength_eq_one_or_two (by simpa [isAbsolute] using h)

/-- The path of a root and names. -/
def ofNames (root : Nat) (names : List (List Char)) : String := String.ofList (assemble root names)

theorem toList_ofNames (root : Nat) (names : List (List Char)) :
    (ofNames root names).toList = assemble root names := String.toList_ofList

/-- **A root and names make a normal path.** -/
theorem isNormal_ofNames {root : Nat} {names : List (List Char)} (hroot : root = 1 ∨ root = 2)
    (h : ∀ n ∈ names, IsName n) : IsNormal (ofNames root names) := by
  have hlength := rootLength_assemble hroot h
  have hne : rootLength (assemble root names) ≠ 0 := by omega
  refine ⟨by simpa [isAbsolute, toList_ofNames] using hne, ?_⟩
  obtain ⟨k, rfl⟩ : ∃ k, root = k + 1 := ⟨root - 1, by omega⟩
  rw [normalize, toList_ofNames, normalizeChars_eq hne, normalNames_assemble k h, hlength, ofNames]

theorem normalize_eq_ofNames {path : String} (h : isAbsolute path) :
    normalize path = ofNames (rootLength path.toList) (normalNames path.toList) := by
  rw [normalize, normalizeChars_eq (by simpa [isAbsolute] using h), ofNames]

/-- **Normalizing leads to a normal form.** -/
theorem isNormal_normalize {path : String} (h : isAbsolute path) : IsNormal (normalize path) := by
  rw [normalize_eq_ofNames h]
  exact isNormal_ofNames (rootLength_of_isAbsolute h) isName_of_mem_normalNames

/-- **The normal paths** are the texts of a root and names. -/
theorem isNormal_iff {path : String} :
    IsNormal path ↔ ∃ root names, (root = 1 ∨ root = 2) ∧ (∀ n ∈ names, IsName n) ∧
      path = ofNames root names := by
  constructor
  · intro h
    refine ⟨rootLength path.toList, normalNames path.toList,
      rootLength_of_isAbsolute h.isAbsolute, isName_of_mem_normalNames, ?_⟩
    rw [← normalize_eq_ofNames h.isAbsolute, h.normalize_eq]
  · rintro ⟨root, names, hroot, hnames, rfl⟩
    exact isNormal_ofNames hroot hnames

/-- A normal path has a root of one or two slashes, and names. -/
theorem IsNormal.exists_names {path : String} (h : IsNormal path) :
    ∃ k names, (k + 1 = 1 ∨ k + 1 = 2) ∧ (∀ n ∈ names, IsName n) ∧
      path = ofNames (k + 1) names := by
  obtain ⟨root, names, hroot, hnames, rfl⟩ := isNormal_iff.mp h
  obtain ⟨k, rfl⟩ : ∃ k, root = k + 1 := ⟨root - 1, by omega⟩
  exact ⟨k, names, hroot, hnames, rfl⟩

/-- The components of a normal path below a single slash: an empty one, and then those of the
names, or another empty one for the root itself. -/
theorem parts_of_isNormal {path : String} (h : IsNormal path)
    (hroot : rootLength path.toList = 1) :
    parts path.toList = [[], []] ∨
      ∃ names, (∀ n ∈ names, IsName n) ∧ parts path.toList = [] :: names := by
  obtain ⟨root, names, hroots, hnames, rfl⟩ := isNormal_iff.mp h
  rw [toList_ofNames, rootLength_assemble hroots hnames] at hroot
  subst hroot
  rw [toList_ofNames]
  by_cases hne : names = []
  · subst hne
    exact Or.inl (parts_replicate 1)
  · exact Or.inr ⟨names, hnames, parts_assemble 0 hne hnames⟩

theorem ofNames_inj {root root' : Nat} {names names' : List (List Char)}
    (hroot : root = 1 ∨ root = 2) (hroot' : root' = 1 ∨ root' = 2)
    (h : ∀ n ∈ names, IsName n) (h' : ∀ n ∈ names', IsName n)
    (heq : ofNames root names = ofNames root' names') : root = root' ∧ names = names' :=
  assemble_inj hroot hroot' h h' (String.ofList_injective heq)

end TsProject.Path

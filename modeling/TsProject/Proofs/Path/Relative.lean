import TsProject.Proofs.Path.Stem
import TsProject.Proofs.Path.Tidy

/-!
# Ways between normal paths

The way from a normal path to one below it consists of the names between them
(`relativeTo_ofNames`), and it leads there from any other normal path that it is put behind
(`resolve_ofNames`). Together they move what lies below one directory below another one.

A file whose name ends in an extension has the rest of the name as its stem, as long as something
other than points stands in front of the extension (`stem_ofNames`).
-/

namespace TsProject.Path

/-! ### Paths below a single slash -/

/-- **A rooted path**: a normal path below a single slash. -/
structure IsRooted (path : String) : Prop where
  isNormal : IsNormal path
  rootLength : rootLength path.toList = 1

instance (path : String) : Decidable (IsRooted path) :=
  decidable_of_iff (IsNormal path ∧ rootLength path.toList = 1)
    ⟨fun ⟨hnormal, hroot⟩ => ⟨hnormal, hroot⟩, fun ⟨hnormal, hroot⟩ => ⟨hnormal, hroot⟩⟩

/-- The rooted paths are the texts of names behind one slash. -/
theorem isRooted_iff {path : String} :
    IsRooted path ↔ ∃ names, (∀ n ∈ names, IsName n) ∧ path = ofNames 1 names := by
  constructor
  · rintro ⟨hnormal, hroot⟩
    obtain ⟨root, names, hroots, hnames, rfl⟩ := isNormal_iff.mp hnormal
    rw [toList_ofNames, rootLength_assemble hroots hnames] at hroot
    exact ⟨names, hnames, by rw [hroot]⟩
  · rintro ⟨names, hnames, rfl⟩
    refine ⟨isNormal_ofNames (.inl rfl) hnames, ?_⟩
    rw [toList_ofNames, rootLength_assemble (.inl rfl) hnames]

theorem isRooted_ofNames {names : List (List Char)} (h : ∀ n ∈ names, IsName n) :
    IsRooted (ofNames 1 names) := isRooted_iff.mpr ⟨names, h, rfl⟩

/-- The trail of a rooted path consists of its names. -/
theorem trail_ofNames_one {names : List (List Char)} (h : ∀ n ∈ names, IsName n) :
    trail (ofNames 1 names) = names := trail_ofNames (.inl rfl) h

/-! ### From a directory down -/

/-- Nothing is left of a list in front of another one that it begins. -/
theorem dropCommon_append [DecidableEq α] (first second : List α) :
    dropCommon first (first ++ second) = ([], second) := by
  induction first with
  | nil => rfl
  | cons a first ih =>
    rw [List.cons_append, dropCommon, if_pos rfl]
    exact ih

/-- The components of a normal path that are not empty are its names. -/
theorem filter_parts_ofNames {names : List (List Char)} (k : Nat) (h : ∀ n ∈ names, IsName n) :
    (parts (ofNames (k + 1) names).toList).filter (· ≠ []) = names := by
  have hempty : ∀ m, (List.replicate m ([] : List Char)).filter (· ≠ []) = [] := by
    intro m
    simp
  rw [toList_ofNames]
  by_cases hne : names = []
  · rw [hne, assemble_succ_nil, parts_replicate, hempty]
  · rw [parts_assemble k hne h, List.filter_append, hempty, List.nil_append,
      List.filter_eq_self]
    intro n hn
    simpa using (h n hn).ne_nil

section Below

variable {k : Nat} (hk : k + 1 = 1 ∨ k + 1 = 2) {names below : List (List Char)}
variable (h : ∀ n ∈ names, IsName n) (hbelow : ∀ n ∈ below, IsName n)
variable (hne : below ≠ [])
include hk h hbelow hne

/-- **The way down** from a normal path to one below it consists of the names between them. -/
theorem relativeTo_ofNames (cwd : String) :
    relativeTo cwd (ofNames (k + 1) names) (ofNames (k + 1) (names ++ below)) =
      String.ofList (Text.joinWith '/' below) := by
  have hall : ∀ n ∈ names ++ below, IsName n := List.forall_mem_append.mpr ⟨h, hbelow⟩
  have hstart : resolve cwd (ofNames (k + 1) names) = ofNames (k + 1) names :=
    resolve_of_isNormal (isNormal_ofNames hk h) cwd
  have hend : resolve cwd (ofNames (k + 1) (names ++ below)) = ofNames (k + 1) (names ++ below) :=
    resolve_of_isNormal (isNormal_ofNames hk hall) cwd
  have hsteps : below.isEmpty = false := by simpa using hne
  simp only [relativeTo, hstart, hend, filter_parts_ofNames k h, filter_parts_ofNames k hall,
    dropCommon_append, List.map_nil, List.nil_append, hsteps, Bool.false_eq_true, if_false]

/-- Names put behind a normal path come behind its own. -/
theorem join_joinWith :
    join (ofNames (k + 1) names) (String.ofList (Text.joinWith '/' below)) =
      ofNames (k + 1) (names ++ below) := by
  obtain ⟨first, rest, rfl⟩ := List.exists_cons_of_ne_nil hne
  obtain ⟨c, cs, hfirst, hc⟩ := (hbelow first (by simp)).exists_cons
  have hbase : rootLength (assemble (k + 1) names) ≠ 0 := by
    rw [rootLength_assemble hk h]
    exact Nat.succ_ne_zero k
  have hrelative : rootLength (Text.joinWith '/' (first :: rest)) = 0 := by
    rw [Text.joinWith_cons, hfirst]
    simp [rootLength, hc]
  rw [join, toList_ofNames, String.toList_ofList, joinChars_of_relative hbase hrelative, ofNames]
  congr 1
  by_cases hnil : names = []
  · -- behind the root itself, the slash of the first name is there already
    subst hnil
    rw [assemble_succ_nil, if_pos (by simp [List.getLast?_replicate]), List.nil_append,
      assemble_of_pos (Nat.succ_pos k)]
  · rw [if_neg (getLast?_assemble k hnil h), assemble_append k hnil, Text.joinWith_cons,
      Text.headed_cons, List.cons_append]

/-- **Moved below another path**: names resolved against a normal path. -/
theorem resolve_joinWith :
    resolve (ofNames (k + 1) names) (String.ofList (Text.joinWith '/' below)) =
      ofNames (k + 1) (names ++ below) := by
  rw [resolve, join_joinWith hk h hbelow hne]
  exact (isNormal_ofNames hk (List.forall_mem_append.mpr ⟨h, hbelow⟩)).normalize_eq

end Below

/-! ### Extensions -/

/-- **The stem of a file name** with an extension: what stands in front of it, unless that
consists of points only. -/
theorem stemChars_append {dir name extension : List Char} (hname : '/' ∉ name)
    (htelling : ∃ c ∈ name, c ≠ '.') (hslash : '/' ∉ extension) (hpoint : '.' ∉ extension) :
    stemChars (dir ++ '/' :: (name ++ '.' :: extension)) = dir ++ '/' :: name := by
  have hfile : '/' ∉ name ++ '.' :: extension := by
    simp [List.mem_append, hname, hslash]
  -- the points in front of the name end within it
  obtain ⟨c, hc, hcPoint⟩ := htelling
  have hshort : (name.takeWhile (· = '.')).length < name.length :=
    length_takeWhile_lt hc (by simpa using hcPoint)
  have hlead : (name ++ '.' :: extension).takeWhile (· = '.') = name.takeWhile (· = '.') := by
    rw [List.takeWhile_append, if_neg (Nat.ne_of_lt hshort)]
  have hbody : (name ++ '.' :: extension).drop (name.takeWhile (· = '.')).length =
      name.drop (name.takeWhile (· = '.')).length ++ '.' :: extension := by
    rw [List.drop_append_of_le_length (Nat.le_of_lt hshort)]
  -- and the last point is the one in front of the extension
  have hends : ∀ front : List Char,
      ((front ++ '.' :: extension).reverse.takeWhile (· ≠ '.')).length = extension.length := by
    intro front
    have hplain : ∀ c ∈ extension.reverse, (decide (c ≠ '.')) = true := by
      intro c hc
      rw [List.mem_reverse] at hc
      simpa using ne_of_mem_of_not_mem hc hpoint
    have hreverse : (front ++ '.' :: extension).reverse =
        extension.reverse ++ '.' :: front.reverse := by simp
    rw [hreverse, List.takeWhile_append_of_pos hplain]
    simp
  have hcut : (dir ++ '/' :: (name ++ '.' :: extension)).length - (extension.length + 1) =
      (dir ++ '/' :: name).length := by
    simp only [List.length_append, List.length_cons]
    omega
  have hwhole : dir ++ '/' :: (name ++ '.' :: extension) =
      dir ++ '/' :: name ++ '.' :: extension := by simp
  simp only [stemChars, baseNameChars_append hfile, hlead, hbody, hends, hcut]
  rw [if_pos (by simp), hwhole, List.take_left]

theorem stem_ofNames {names : List (List Char)} {name extension : List Char} (k : Nat)
    (hname : '/' ∉ name) (htelling : ∃ c ∈ name, c ≠ '.') (hslash : '/' ∉ extension)
    (hpoint : '.' ∉ extension) :
    stem (ofNames (k + 1) (names ++ [name ++ '.' :: extension])) =
      ofNames (k + 1) (names ++ [name]) := by
  obtain ⟨dir, hdir⟩ := exists_assemble_concat k names
  rw [stem, toList_ofNames, hdir, stemChars_append hname htelling hslash hpoint, ofNames, hdir]

end TsProject.Path

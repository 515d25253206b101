import TsProject.Proofs.Path.Below
import TsProject.Selection.Walk

/-!
# Bases of specifications

The base of a specification in normal form, expanded or not, is a normal path that the first
names of the specification make up, those without wildcards (`base_ofNames`). It is never the root
of two slashes, so that lying within a base is a matter of components: `isWithin_iff_trail`.
-/

namespace TsProject.FileSpec

open Text (headed splitOnChar)
open TsProject.Path (IsName IsNormal assemble ofNames parts trail)

/-! ### Directories that specifications are based on -/

/-- **A base**: a normal path other than the root of two slashes. -/
structure IsBase (path : String) : Prop where
  isNormal : IsNormal path
  ne_doubleRoot : path ≠ "//"

theorem isBase_root : IsBase "/" := ⟨⟨by decide, by decide⟩, by decide⟩

theorem isBase_ofNames {root : Nat} {names : List (List Char)} (hroot : root = 1 ∨ root = 2)
    (h : ∀ n ∈ names, IsName n) (hne : names ≠ []) : IsBase (ofNames root names) := by
  refine ⟨Path.isNormal_ofNames hroot h, fun heq => hne ?_⟩
  have hdouble : ofNames root names = ofNames 2 [] := heq
  exact (Path.ofNames_inj hroot (Or.inr rfl) h (by simp) hdouble).2

/-- A base is the root, or has names. -/
theorem IsBase.eq_root_or {path : String} (h : IsBase path) :
    path = "/" ∨ ∃ k names, (k + 1 = 1 ∨ k + 1 = 2) ∧ (∀ n ∈ names, IsName n) ∧ names ≠ [] ∧
      path = ofNames (k + 1) names := by
  obtain ⟨k, names, hroot, hnames, rfl⟩ := h.isNormal.exists_names
  by_cases hne : names = []
  · subst hne
    obtain rfl | rfl : k = 0 ∨ k = 1 := by omega
    · exact Or.inl rfl
    · exact absurd rfl h.ne_doubleRoot
  · exact Or.inr ⟨k, names, hroot, hnames, hne, rfl⟩

/-! ### The base of a specification in normal form -/

theorem dropWhile_slash_reverse {cs : List Char} (h : cs.getLast? ≠ some '/') :
    (cs.reverse.dropWhile (· = '/')).reverse = cs := by
  rw [← List.head?_reverse] at h
  cases hcs : cs.reverse with
  | nil => rw [List.dropWhile_nil, ← hcs, List.reverse_reverse]
  | cons c rest =>
    have hc : ¬ c = '/' := by simpa [hcs] using h
    rw [List.dropWhile_cons_of_neg (by simpa using hc), ← hcs, List.reverse_reverse]

/-- **An expanded specification** consists of a root and at least one name, the last of which
does not stand for any directories. -/
theorem exists_names_of_expand {spec full : String} (hspec : IsNormal spec)
    (h : expand spec = .ok full) :
    ∃ k names, (k + 1 = 1 ∨ k + 1 = 2) ∧ (∀ n ∈ names, IsName n) ∧ names ≠ [] ∧
      names.getLast? ≠ some anyDirsName ∧ full = ofNames (k + 1) names := by
  have heverything : ∀ n ∈ ["**".toList, "*".toList], IsName n := by
    intro n hn
    simp only [List.mem_cons, List.not_mem_nil, or_false] at hn
    rcases hn with rfl | rfl <;> exact ⟨by decide, by decide, by decide, by decide⟩
  obtain ⟨k, names, hroot, hnames, rfl⟩ := hspec.exists_names
  by_cases hne : names = []
  · -- a root alone is stripped of its slashes, and everything below the single slash is meant
    refine ⟨0, ["**".toList, "*".toList], Or.inl rfl, heverything, by simp, by decide, ?_⟩
    subst hne
    obtain rfl | rfl : k = 0 ∨ k = 1 := by omega
    · exact (Except.ok.inj h).symm
    · exact (Except.ok.inj h).symm
  · have hstrip := dropWhile_slash_reverse (Path.getLast?_assemble k hne hnames)
    have hlast : (splitOnChar '/' (assemble (k + 1) names)).getLast? = names.getLast? := by
      rw [← parts, Path.parts_assemble k hne hnames, List.getLast?_append_of_ne_nil _ hne]
    rw [expand, Path.toList_ofNames, hstrip, hlast] at h
    dsimp only at h
    split_ifs at h with hdirs
    · refine ⟨k, names ++ ["**".toList, "*".toList], hroot,
        List.forall_mem_append.mpr ⟨hnames, heverything⟩, by simp, ?_, ?_⟩
      · rw [List.getLast?_append_of_ne_nil _ (by simp)]
        decide
      · rw [← Except.ok.inj h, ofNames, Path.assemble_append k hne]
        rfl
    · refine ⟨k, names, hroot, hnames, hne, fun heq => hdirs ?_, (Except.ok.inj h).symm⟩
      rw [heq, Option.getD_some]

/-- Components without a wildcard are kept, up to the last one. -/
theorem exists_baseParts_eq (k : Nat) {names : List (List Char)} (hne : names ≠ []) :
    ∃ kept rest, names = kept ++ rest ∧ rest ≠ [] ∧ (∀ c ∈ kept, hasWildcardChars c = false) ∧
      baseParts (List.replicate k [] ++ names) = List.replicate k [] ++ kept := by
  have hfixed : (List.replicate k [] ++ names).takeWhile (!hasWildcardChars ·) =
      List.replicate k [] ++ names.takeWhile (!hasWildcardChars ·) := by
    refine List.takeWhile_append_of_pos fun part hpart => ?_
    rw [List.eq_of_mem_replicate hpart]
    rfl
  have hplain : ∀ c ∈ names.takeWhile (!hasWildcardChars ·), hasWildcardChars c = false :=
    fun c hc => by simpa using List.all_eq_true.mp List.all_takeWhile c hc
  rw [baseParts, hfixed]
  split_ifs with hall
  · have hnames : names.takeWhile (!hasWildcardChars ·) = names := by
      refine (List.takeWhile_prefix _).eq_of_length ?_
      simpa [List.length_append] using hall
    refine ⟨names.dropLast, [names.getLast hne], (List.dropLast_append_getLast hne).symm, by simp,
      fun c hc => hplain c ?_, ?_⟩
    · rw [hnames]
      exact (List.dropLast_sublist names).subset hc
    · rw [hnames, List.dropLast_append_of_ne_nil hne]
  · refine ⟨_, names.dropWhile (!hasWildcardChars ·), (List.takeWhile_append_dropWhile).symm,
      fun hnil => hall ?_, hplain, rfl⟩
    have hnames := List.takeWhile_append_dropWhile (p := (!hasWildcardChars ·)) (l := names)
    rw [hnil, List.append_nil] at hnames
    rw [hnames]

theorem base_ofNames {k : Nat} {names : List (List Char)} (hk : k + 1 = 1 ∨ k + 1 = 2)
    (hne : names ≠ []) (h : ∀ n ∈ names, IsName n) :
    ∃ kept rest, names = kept ++ rest ∧ rest ≠ [] ∧ (∀ c ∈ kept, hasWildcardChars c = false) ∧
      base (ofNames (k + 1) names) = if kept = [] then "/" else ofNames (k + 1) kept := by
  obtain ⟨kept, rest, heq, hrest, hplain, hparts⟩ := exists_baseParts_eq (k + 1) hne
  refine ⟨kept, rest, heq, hrest, hplain, ?_⟩
  have hsplit : splitOnChar '/' (ofNames (k + 1) names).toList = _ :=
    Path.toList_ofNames _ _ ▸ Path.parts_assemble k hne h
  rw [base, hsplit, hparts]
  split_ifs with hnil
  · subst hnil
    obtain rfl | rfl : k = 0 ∨ k = 1 := by omega
    · rfl
    · rfl
  · -- the kept parts are joined to the path of the kept names
    have hkept : ∀ n ∈ kept, IsName n := fun n hn => h n (heq ▸ List.mem_append_left _ hn)
    have hjoin : Text.joinWith '/' (List.replicate (k + 1) [] ++ kept) = assemble (k + 1) kept := by
      rw [← Path.parts_assemble k hnil hkept, parts, Text.joinWith_splitOnChar]
    have hcons : assemble (k + 1) kept ≠ [] := by
      rw [Path.assemble_of_pos (Nat.succ_pos k), List.replicate_succ]
      simp
    rw [hjoin]
    split
    · rename_i hempty
      exact absurd hempty hcons
    · rfl

/-- **The base of a normal specification** is a base. -/
theorem isBase_base_of_isNormal {spec : String} (h : IsNormal spec) : IsBase (base spec) := by
  obtain ⟨k, names, hk, hnames, rfl⟩ := h.exists_names
  by_cases hne : names = []
  · -- a root alone loses its last part, which is empty
    subst hne
    obtain rfl | rfl : k = 0 ∨ k = 1 := by omega
    · exact isBase_root
    · exact isBase_root
  · obtain ⟨kept, rest, heq, -, -, hbase⟩ := base_ofNames hk hne hnames
    rw [hbase]
    split_ifs with hnil
    · exact isBase_root
    · exact isBase_ofNames hk (fun n hn => hnames n (heq ▸ List.mem_append_left _ hn)) hnil

/-- Expanding keeps specifications in normal form. -/
theorem isNormal_of_expand {spec full : String} (hspec : IsNormal spec)
    (h : expand spec = .ok full) : IsNormal full := by
  obtain ⟨k, names, hk, hnames, -, -, rfl⟩ := exists_names_of_expand hspec h
  exact Path.isNormal_ofNames hk hnames

theorem isBase_base {spec full : String} (hspec : IsNormal spec) (h : expand spec = .ok full) :
    IsBase (base full) :=
  isBase_base_of_isNormal (isNormal_of_expand hspec h)

/-- An expanded specification comes from one that was given. -/
theorem exists_isNormal_of_mem {incl specs : List String} (hincl : ∀ s ∈ incl, IsNormal s)
    (hspecs : incl.map expand = specs.map .ok) {spec : String} (h : spec ∈ specs) :
    ∃ s, IsNormal s ∧ expand s = .ok spec := by
  have hmem : Except.ok spec ∈ incl.map expand := hspecs ▸ List.mem_map_of_mem h
  obtain ⟨s, hs, hexpand⟩ := List.mem_map.mp hmem
  exact ⟨s, hincl s hs, hexpand⟩

/-- **Expanded specifications** have bases. -/
theorem isBase_of_mem {incl specs : List String} (hincl : ∀ s ∈ incl, IsNormal s)
    (hspecs : incl.map expand = specs.map .ok) {spec : String} (h : spec ∈ specs) :
    IsBase (base spec) := by
  obtain ⟨s, hs, hexpand⟩ := exists_isNormal_of_mem hincl hspecs h
  exact isBase_base hs hexpand

/-! ### Lying within a base -/

theorem parts_eq_cons_trail {k : Nat} {names : List (List Char)} (hk : k + 1 = 1 ∨ k + 1 = 2)
    (hne : names ≠ []) (h : ∀ n ∈ names, IsName n) :
    parts (ofNames (k + 1) names).toList = [] :: trail (ofNames (k + 1) names) := by
  rw [Path.trail_ofNames hk h, Path.toList_ofNames, Path.parts_assemble k hne h,
    List.replicate_succ, List.cons_append, Nat.add_sub_cancel]

/-- The text of a path with names is its trail, a slash in front of every component. -/
theorem toList_eq_headed_trail {k : Nat} {names : List (List Char)} (hk : k + 1 = 1 ∨ k + 1 = 2)
    (hne : names ≠ []) (h : ∀ n ∈ names, IsName n) :
    (ofNames (k + 1) names).toList = headed '/' (trail (ofNames (k + 1) names)) := by
  rw [← Text.joinWith_splitOnChar '/' (ofNames (k + 1) names).toList, ← parts,
    parts_eq_cons_trail hk hne h, Text.joinWith_cons, List.nil_append]

/-- **Lying within** a base is a matter of components. -/
theorem isWithin_iff_trail {root path : String} (hroot : IsBase root) (hpath : IsNormal path) :
    isWithin root path ↔ trail root <+: trail path := by
  obtain ⟨j, below, hlength, hbelow, rfl⟩ := hpath.exists_names
  rcases hroot.eq_root_or with rfl | ⟨k, names, hk, hnames, hne, rfl⟩
  · have hstart := Path.startsWith_of_isAbsolute hpath.isAbsolute
    have htrail : trail "/" = [] := by decide
    rw [htrail, isWithin]
    exact iff_of_true (by simpa using Or.inr hstart) List.nil_prefix
  · have hstrip := dropWhile_slash_reverse (Path.getLast?_assemble k hne hnames)
    have hname : ∃ n ∈ trail (ofNames (k + 1) names), n ≠ [] := by
      obtain ⟨name, rest, hcons⟩ := List.exists_cons_of_ne_nil hne
      refine ⟨name, ?_, (hnames name (by simp [hcons])).ne_nil⟩
      rw [Path.trail_ofNames hk hnames, hcons]
      simp
    rw [isWithin, Bool.or_eq_true, beq_iff_eq, Text.startsWith_iff, String.toList_ofList,
      Path.toList_ofNames _ names, hstrip, ← Path.toList_ofNames]
    constructor
    · rintro (heq | ⟨rest, hrest⟩)
      · exact heq ▸ List.prefix_refl _
      · have hparts := congrArg parts hrest
        rw [List.append_assoc, parts, List.singleton_append, Text.splitOnChar_append, ← parts,
          parts_eq_cons_trail hk hne hnames, List.cons_append] at hparts
        by_cases hnil : below = []
        · -- the root alone has no names
          rw [hnil, Path.toList_ofNames, Path.assemble_succ_nil, Path.parts_replicate,
            List.replicate_succ] at hparts
          obtain ⟨name, hmem, hne'⟩ := hname
          have hall := (List.cons_eq_cons.mp hparts).2 ▸ List.mem_append_left _ hmem
          exact absurd (List.eq_of_mem_replicate hall) hne'
        · rw [parts_eq_cons_trail hlength hnil hbelow] at hparts
          exact ⟨_, (List.cons_eq_cons.mp hparts).2⟩
    · rintro ⟨more, hmore⟩
      by_cases hnil : more = []
      · refine Or.inl (Path.trail_inj hpath hroot.isNormal ?_)
        rw [← hmore, hnil, List.append_nil]
      · obtain ⟨first, rest, rfl⟩ := List.exists_cons_of_ne_nil hnil
        refine Or.inr ?_
        by_cases hbelowNil : below = []
        · obtain ⟨name, hmem, hne'⟩ := hname
          have hall : name ∈ trail (ofNames (j + 1) below) :=
            hmore ▸ List.mem_append_left _ hmem
          rw [hbelowNil, Path.trail_ofNames hlength (by simp), List.append_nil] at hall
          exact absurd (List.eq_of_mem_replicate hall) hne'
        · rw [toList_eq_headed_trail hk hne hnames, toList_eq_headed_trail hlength hbelowNil hbelow,
            ← hmore, Text.headed_append, List.prefix_append_right_inj, Text.headed_cons,
            List.cons_append]
          exact List.cons_prefix_cons.mpr ⟨rfl, List.nil_prefix⟩

end TsProject.FileSpec

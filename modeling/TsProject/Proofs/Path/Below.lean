import TsProject.Proofs.Path.Normal

/-!
# Normal paths below normal paths

Putting names behind a normal path gives a normal path again (`join_ofNames`), whose text the
first one begins. `trail` lists the components of a normal path behind the first slash, and
whether one path lies below another is a question about their trails: `//x` lies below `/`, but
through a component without a name.
-/

namespace TsProject.Path

open Text (headed)

/-! ### More names -/

theorem joinChars_eq {base part : List Char} (h : '/' ∉ part) (hbase : base ≠ []) :
    joinChars base part =
      if base.getLast? = some '/' then base ++ part else base ++ '/' :: part := by
  have hroot : rootLength part = 0 := by
    by_contra hne
    obtain ⟨rest, rfl⟩ := rootLength_ne_zero_iff.mp hne
    exact h List.mem_cons_self
  simp [joinChars, hroot, hbase]

theorem getLast?_headed {names : List (List Char)} (hne : names ≠ [])
    (h : ∀ n ∈ names, IsName n) : (headed '/' names).getLast? ≠ some '/' := by
  obtain ⟨before, name, rfl⟩ := List.eq_nil_or_concat names |>.resolve_left hne
  obtain ⟨c, rest, hname, -⟩ := (h name (by simp)).exists_cons
  have hlast : (headed '/' (before ++ [name])).getLast? = name.getLast? := by
    simp [hname, List.getLast?_cons]
  intro hslash
  rw [List.concat_eq_append, hlast] at hslash
  exact (h name (by simp)).noSlash (List.mem_of_getLast? hslash)

theorem getLast?_assemble {names : List (List Char)} (k : Nat) (hne : names ≠ [])
    (h : ∀ n ∈ names, IsName n) : (assemble (k + 1) names).getLast? ≠ some '/' := by
  cases names with
  | nil => exact absurd rfl hne
  | cons name names =>
    rw [assemble_succ_cons, List.getLast?_append_of_ne_nil _ (by simp)]
    exact getLast?_headed hne h

/-- More names come behind the text of the first, each with a slash in front. -/
theorem assemble_append {names : List (List Char)} (k : Nat) (hne : names ≠ [])
    (more : List (List Char)) :
    assemble (k + 1) (names ++ more) = assemble (k + 1) names ++ headed '/' more := by
  cases names with
  | nil => exact absurd rfl hne
  | cons name names =>
    rw [List.cons_append, assemble_succ_cons, assemble_succ_cons, ← List.cons_append,
      Text.headed_append, List.append_assoc]

theorem assemble_prefix (k : Nat) (names more : List (List Char)) :
    assemble (k + 1) names <+: assemble (k + 1) (names ++ more) := by
  by_cases hne : names = []
  · subst hne
    cases more with
    | nil => simp
    | cons name more =>
      rw [List.nil_append, assemble_succ_nil, assemble_succ_cons, List.replicate_succ',
        List.prefix_append_right_inj, Text.headed_cons, List.cons_append]
      exact List.cons_prefix_cons.mpr ⟨rfl, List.nil_prefix⟩
  · rw [assemble_append k hne]
    exact List.prefix_append _ _

/-- **A component put behind a normal path** stands behind its names. -/
theorem join_ofNames {names : List (List Char)} {part : List Char} (k : Nat)
    (h : ∀ n ∈ names, IsName n) (hpart : '/' ∉ part) :
    join (ofNames (k + 1) names) (String.ofList part) = ofNames (k + 1) (names ++ [part]) := by
  have hne : assemble (k + 1) names ≠ [] := by
    rw [assemble_of_pos (Nat.succ_pos k), List.replicate_succ]
    simp
  rw [join, toList_ofNames, String.toList_ofList, joinChars_eq hpart hne, ofNames]
  congr 1
  by_cases hnil : names = []
  · subst hnil
    rw [assemble_succ_nil, if_pos (by simp [List.getLast?_replicate]), List.nil_append,
      assemble_succ_cons, List.replicate_succ']
    simp
  · rw [if_neg (getLast?_assemble k hnil h), assemble_append k hnil]
    simp

/-- The characters of a path that has been put together: those of both, and a slash. -/
theorem mem_toList_join {base path : String} {c : Char} (h : c ∈ (join base path).toList) :
    c ∈ base.toList ∨ c = '/' ∨ c ∈ path.toList := by
  rw [join, String.toList_ofList, joinChars] at h
  split_ifs at h
  · exact .inr (.inr h)
  · exact (List.mem_append.mp h).imp_right .inr
  · exact (List.mem_append.mp h).imp_right List.mem_cons.mp

theorem utf8ByteSize_ofNames_le (k : Nat) (names more : List (List Char)) :
    (ofNames (k + 1) names).utf8ByteSize ≤ (ofNames (k + 1) (names ++ more)).utf8ByteSize := by
  obtain ⟨rest, hrest⟩ := assemble_prefix k names more
  have heq : ofNames (k + 1) (names ++ more) = ofNames (k + 1) names ++ String.ofList rest := by
    rw [ofNames, ← hrest, String.ofList_append, ofNames]
  rw [heq, String.utf8ByteSize_append]
  exact Nat.le_add_right _ _

/-! ### Absolute paths -/

theorem isAbsolute_iff {path : String} :
    isAbsolute path ↔ ∃ rest, path.toList = '/' :: rest := by
  rw [← rootLength_ne_zero_iff]
  simp [isAbsolute]

theorem startsWith_of_isAbsolute {path : String} (h : isAbsolute path) :
    Text.startsWith path "/" := by
  obtain ⟨rest, hrest⟩ := isAbsolute_iff.mp h
  rw [Text.startsWith_iff, hrest]
  exact List.cons_prefix_cons.mpr ⟨rfl, List.nil_prefix⟩

theorem isAbsolute_join {base : String} (h : isAbsolute base) (name : String) :
    isAbsolute (join base name) := by
  obtain ⟨rest, hrest⟩ := isAbsolute_iff.mp h
  rw [join, joinChars, hrest]
  split_ifs with hname
  · simpa [isAbsolute] using hname
  · exact isAbsolute_iff.mpr ⟨_, String.toList_ofList⟩
  · exact isAbsolute_iff.mpr ⟨_, String.toList_ofList⟩

/-- What is put together behind a root is absolute. -/
theorem isAbsolute_ofNames {root : Nat} (hroot : root ≠ 0) (names : List (List Char)) :
    isAbsolute (ofNames root names) := by
  obtain ⟨k, rfl⟩ := Nat.exists_eq_succ_of_ne_zero hroot
  rw [isAbsolute_iff, toList_ofNames, assemble_of_pos (Nat.succ_pos k), List.replicate_succ]
  exact ⟨_, rfl⟩

theorem isAbsolute_tidy {path : String} (h : isAbsolute path) : isAbsolute (tidy path) :=
  isAbsolute_ofNames (by simpa [isAbsolute] using h) _

theorem isAbsolute_parent {path : String} (h : isAbsolute path) : isAbsolute (parent path) :=
  isAbsolute_ofNames (by simpa [isAbsolute] using h) _

theorem isAbsolute_child {base : String} (h : isAbsolute base) (name : String) :
    isAbsolute (child base name) := isAbsolute_tidy (isAbsolute_join h name)

/-- The directory of a normal path is a normal path, with one name less. -/
theorem parent_ofNames {root : Nat} {names : List (List Char)} (hroot : root = 1 ∨ root = 2)
    (h : ∀ n ∈ names, IsName n) : parent (ofNames root names) = ofNames root names.dropLast := by
  obtain ⟨k, rfl⟩ : ∃ k, root = k + 1 := ⟨root - 1, by omega⟩
  rw [parent, toList_ofNames, rootLength_assemble hroot h, solidParts_assemble k h, ofNames]

theorem IsNormal.parent {path : String} (h : IsNormal path) : IsNormal (parent path) := by
  obtain ⟨k, names, hroot, hnames, rfl⟩ := h.exists_names
  rw [parent_ofNames hroot hnames]
  exact isNormal_ofNames hroot fun n hn => hnames n ((List.dropLast_sublist names).subset hn)

/-! ### Resolving -/

theorem isNormal_resolve {base : String} (h : isAbsolute base) (path : String) :
    IsNormal (resolve base path) := isNormal_normalize (isAbsolute_join h path)

theorem join_of_isAbsolute {path : String} (h : isAbsolute path) (base : String) :
    join base path = path := by
  have hroot : rootLength path.toList ≠ 0 := by simpa [isAbsolute] using h
  rw [join, joinChars, if_pos hroot, String.ofList_toList]

/-- **A normal path stands for itself**, whatever it is resolved against. -/
theorem resolve_of_isNormal {path : String} (h : IsNormal path) (base : String) :
    resolve base path = path := by
  rw [resolve, join_of_isAbsolute h.isAbsolute, h.normalize_eq]

/-! ### Trails -/

/-- **The trail** of a path: an empty component if the root has two slashes, then the names. -/
def trail (path : String) : List (List Char) :=
  List.replicate (rootLength path.toList - 1) [] ++ solidParts path.toList

theorem trail_ofNames {root : Nat} {names : List (List Char)} (hroot : root = 1 ∨ root = 2)
    (h : ∀ n ∈ names, IsName n) :
    trail (ofNames root names) = List.replicate (root - 1) [] ++ names := by
  obtain ⟨k, rfl⟩ : ∃ k, root = k + 1 := ⟨root - 1, by omega⟩
  rw [trail, toList_ofNames, rootLength_assemble hroot h, solidParts_assemble k h]

theorem noSlash_of_mem_trail {path : String} {part : List Char} (h : part ∈ trail path) :
    '/' ∉ part := by
  rcases List.mem_append.mp h with h | h
  · simp [List.eq_of_mem_replicate h]
  · exact Text.not_mem_of_mem_splitOnChar (List.mem_filter.mp h).1

/-- Names begin only behind the same root. -/
theorem trail_append_names {root root' : Nat} {names names' more : List (List Char)}
    (hroot : root = 1 ∨ root = 2) (hroot' : root' = 1 ∨ root' = 2)
    (h : ∀ n ∈ names, IsName n) (h' : ∀ n ∈ names', IsName n) (hmore : ∀ n ∈ more, n ≠ [])
    (heq : trail (ofNames root' names') = trail (ofNames root names) ++ more) :
    root' = root ∧ names' = names ++ more := by
  rw [trail_ofNames hroot h, trail_ofNames hroot' h', List.append_assoc] at heq
  have hfirst : ∀ n ∈ names ++ more, n ≠ [] :=
    List.forall_mem_append.mpr ⟨fun n hn => (h n hn).ne_nil, hmore⟩
  rcases hroot with rfl | rfl <;> rcases hroot' with rfl | rfl
  · exact ⟨rfl, by simpa using heq⟩
  · exact absurd rfl (hfirst [] (by rw [← show _ = names ++ more by simpa using heq]; simp))
  · exact absurd rfl ((h' [] (by rw [show names' = _ by simpa using heq]; simp)).ne_nil)
  · exact ⟨rfl, by simpa using heq⟩

theorem trail_inj {path path' : String} (h : IsNormal path) (h' : IsNormal path')
    (heq : trail path = trail path') : path = path' := by
  obtain ⟨root, names, hroot, hnames, rfl⟩ := isNormal_iff.mp h
  obtain ⟨root', names', hroot', hnames', rfl⟩ := isNormal_iff.mp h'
  rw [← List.append_nil (trail (ofNames root' names'))] at heq
  obtain ⟨rfl, rfl⟩ := trail_append_names hroot' hroot hnames' hnames (by simp) heq
  rw [List.append_nil]

/-- **A name put behind a normal path** makes a normal path, and stands behind its trail. -/
theorem IsNormal.join_name {path name : String} (h : IsNormal path) (hname : IsName name.toList) :
    IsNormal (join path name) ∧ trail (join path name) = trail path ++ [name.toList] := by
  obtain ⟨k, names, hk, hnames, rfl⟩ := h.exists_names
  have hall : ∀ n ∈ names ++ [name.toList], IsName n :=
    List.forall_mem_append.mpr ⟨hnames, List.forall_mem_singleton.mpr hname⟩
  rw [← String.ofList_toList (s := name), join_ofNames k hnames hname.noSlash,
    String.toList_ofList, trail_ofNames hk hall, trail_ofNames hk hnames, List.append_assoc]
  exact ⟨isNormal_ofNames hk hall, rfl⟩

end TsProject.Path

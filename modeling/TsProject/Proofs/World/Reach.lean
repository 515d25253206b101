import TsProject.Proofs.Selection.Glob
import TsProject.Proofs.World.Finding
import TsProject.Proofs.World.Levels
import TsProject.Proofs.World.Naming

/-!
# Ways of walks

`Reaches` says that a walk comes from one directory to another: it enters open directories, one
after the other. A walk meets exactly the files of the directories that it reaches
(`mem_walked_iff`).

In a well named world the texts of a way follow its names: whatever is reached below a normal
path is that path with open names behind it (`Reaches.exists_names`). In the other direction, a
directory that the system finds below another one by open names is reached from there
(`reaches_of_leadWith`), so that a walk from further up meets the same files
(`mem_walk_of_append`).
-/

namespace TsProject.World

open FileSpec (IsOpenName IsPackageName)
open TsProject.Path (IsName ofNames)

/-- **The way of a walk** from one directory to another, through open directories. -/
inductive Reaches (w : World) : Spot → String → Spot → String → Prop
  | refl (dir : Spot) (path : String) : Reaches w dir path dir path
  | enter {dir last : Spot} {path lastPath : String} {e : Entry} :
    e ∈ w.dirsIn dir path → Reaches w e.spot e.path last lastPath →
      Reaches w dir path last lastPath

theorem Reaches.trans {w : World} {a b c : Spot} {p q r : String} (h : Reaches w a p b q)
    (h' : Reaches w b q c r) : Reaches w a p c r := by
  induction h with
  | refl => exact h'
  | enter he _ ih => exact .enter he (ih h')

/-- **What a walk meets**: the files of the directories that it reaches. -/
theorem mem_walked_iff {w : World} {dir : Spot} {path : String} {files : List String}
    (h : Walked w dir path files) {file : String} :
    file ∈ files ↔ ∃ last lastPath, Reaches w dir path last lastPath ∧
      file ∈ w.filesIn last lastPath := by
  constructor
  · intro hfile
    induction h with
    | @dir dir path below hbelow ih =>
      -- a file of the directory itself, or one below a directory that is entered
      rcases List.mem_append.mp hfile with hfile | hfile
      · exact ⟨dir, path, .refl dir path, hfile⟩
      · obtain ⟨e, he, hfile⟩ := List.mem_flatMap.mp hfile
        obtain ⟨last, lastPath, hreach, hlast⟩ := ih e he hfile
        exact ⟨last, lastPath, .enter he hreach, hlast⟩
  · rintro ⟨last, lastPath, hreach, hlast⟩
    induction hreach generalizing files with
    | refl dir path =>
      cases h with
      | dir below _ => exact List.mem_append_left _ hlast
    | enter he _ ih =>
      cases h with
      | dir below hbelow =>
        exact List.mem_append_right _ (List.mem_flatMap.mpr ⟨_, he, ih (hbelow _ he) hlast⟩)

/-- The files below a directory, by the way to them. -/
theorem mem_walk_iff {w : World} {root file : String} :
    file ∈ w.walk root ↔ ∃ start, w.existing root = .ok start ∧ start.node = some .dir ∧
      ∃ last lastPath, Reaches w start root last lastPath ∧ file ∈ w.filesIn last lastPath := by
  rw [walk]
  cases hstart : w.existing root with
  | error cause => simp
  | ok start =>
    have hlevels : w.levels start < w.walkLevels :=
      levels_lt_walkLevels (links_le_of_existing hstart)
    by_cases hnode : start.node = some .dir
    · simp only [hnode, if_true, Except.ok.injEq, exists_eq_left', true_and]
      exact mem_walked_iff (walked_walkFrom root hlevels)
    · simp [hnode]

/-! ### Texts of ways -/

theorem mem_entries_iff {w : World} {loc : Location} {name : String} :
    name ∈ w.entries loc ↔ ∃ node, (loc ++ [name], node) ∈ w.nodes := by
  rw [entries, List.mem_mergeSort, List.mem_filterMap]
  constructor
  · rintro ⟨⟨place, node⟩, hmem, h⟩
    split_ifs at h with hplace
    obtain ⟨before, rfl⟩ := List.getLast?_eq_some_iff.mp h
    rw [List.dropLast_concat] at hplace
    exact ⟨node, hplace ▸ hmem⟩
  · rintro ⟨node, hmem⟩
    exact ⟨_, hmem, by simp⟩

theorem WellNamed.isName_of_mem_listing {w : World} (hw : w.WellNamed) {dir : Spot}
    {path : String} {e : Entry} (h : e ∈ w.listing dir path) : IsName e.name.toList := by
  obtain ⟨node, hmem⟩ := mem_entries_iff.mp (mem_listing_iff.mp h).2.1
  exact hw.nodes _ hmem _ (by simp)

/-- Names of directories that are entered are those that `**` takes. -/
theorem isClosedName_eq_false_iff {name : String} (h : IsName name.toList) :
    isClosedName name = false ↔ IsOpenName name.toList := by
  have hdot : Text.startsWith name "." ↔ name.toList.head? = some '.' := by
    rw [Text.startsWith_iff]
    cases name.toList <;> simp [eq_comm]
  rw [isClosedName, Bool.or_eq_false_iff, Bool.eq_false_iff, ne_eq, hdot]
  constructor
  · rintro ⟨hhidden, hpackage⟩
    refine ⟨h.ne_nil, hhidden, ?_⟩
    rw [IsPackageName, String.ofList_toList]
    simpa using hpackage
  · rintro ⟨-, hhidden, hpackage⟩
    rw [IsPackageName, String.ofList_toList] at hpackage
    exact ⟨hhidden, by simpa using hpackage⟩

/-- The text of an entry of a normal path is that path and one more name. -/
theorem WellNamed.path_of_mem_listing {w : World} (hw : w.WellNamed) {dir : Spot} {k : Nat}
    {names : List (List Char)} (hnames : ∀ n ∈ names, IsName n) {e : Entry}
    (h : e ∈ w.listing dir (ofNames (k + 1) names)) :
    e.path = ofNames (k + 1) (names ++ [e.name.toList]) := by
  have hname : IsName e.name.toList := hw.isName_of_mem_listing h
  rw [(mem_listing_iff.mp h).2.2.1, ← Path.join_ofNames k hnames hname.noSlash,
    String.ofList_toList]

/-- **The text of a way** below a normal path: open names behind that path. -/
theorem Reaches.exists_names {w : World} (hw : w.WellNamed) {dir last : Spot}
    {path lastPath : String} (h : Reaches w dir path last lastPath) {k : Nat}
    {names : List (List Char)} (hnames : ∀ n ∈ names, IsName n)
    (hpath : path = ofNames (k + 1) names) :
    ∃ below, (∀ n ∈ below, IsName n ∧ IsOpenName n) ∧
      lastPath = ofNames (k + 1) (names ++ below) := by
  induction h generalizing names with
  | refl => exact ⟨[], by simp, by simpa using hpath⟩
  | @enter dir last path lastPath e he _ ih =>
    subst hpath
    obtain ⟨hmem, hdir⟩ := List.mem_filter.mp he
    have hname := hw.isName_of_mem_listing hmem
    have hopen : isClosedName e.name = false := by
      simpa using (Bool.and_eq_true_iff.mp hdir).2
    have hall : ∀ n ∈ names ++ [e.name.toList], IsName n :=
      List.forall_mem_append.mpr ⟨hnames, List.forall_mem_singleton.mpr hname⟩
    -- the rest of the way is below the path with this name behind it
    obtain ⟨below, hbelow, hlast⟩ := ih hall (hw.path_of_mem_listing hnames hmem)
    refine ⟨e.name.toList :: below, ?_, by simpa using hlast⟩
    intro n hn
    rcases List.mem_cons.mp hn with rfl | hn
    · exact ⟨hname, (isClosedName_eq_false_iff hname).mp hopen⟩
    · exact hbelow n hn

/-- The text of a file of a normal path is that path and one more name. -/
theorem WellNamed.exists_name_of_mem_filesIn {w : World} (hw : w.WellNamed) {dir : Spot} {k : Nat}
    (hk : k + 1 = 1 ∨ k + 1 = 2) {names : List (List Char)} (hnames : ∀ n ∈ names, IsName n)
    {file : String} (h : file ∈ w.filesIn dir (ofNames (k + 1) names)) :
    ∃ name, IsName name ∧ file = ofNames (k + 1) (names ++ [name]) := by
  obtain ⟨e, he, rfl⟩ := List.mem_map.mp h
  have hmem := (List.mem_filter.mp he).1
  have hname := hw.isName_of_mem_listing hmem
  refine ⟨e.name.toList, hname, ?_⟩
  rw [hw.path_of_mem_listing hnames hmem]
  have hall : ∀ n ∈ names ++ [e.name.toList], IsName n :=
    List.forall_mem_append.mpr ⟨hnames, List.forall_mem_singleton.mpr hname⟩
  exact (Path.isNormal_ofNames hk hall).normalize_eq

/-- Ways from an absolute path stay absolute. -/
theorem Reaches.isAbsolute {w : World} {dir last : Spot} {path lastPath : String}
    (h : Reaches w dir path last lastPath) (hpath : Path.isAbsolute path) :
    Path.isAbsolute lastPath := by
  induction h with
  | refl => exact hpath
  | enter he _ ih =>
    refine ih ?_
    rw [(mem_listing_iff.mp (List.mem_filter.mp he).1).2.2.1]
    exact Path.isAbsolute_join hpath _

/-- **Files below an absolute path** are met in normal form. -/
theorem isNormal_of_mem_walk {w : World} {root file : String} (hroot : Path.isAbsolute root)
    (h : file ∈ w.walk root) : Path.IsNormal file := by
  obtain ⟨start, -, -, last, lastPath, hreach, hfile⟩ := mem_walk_iff.mp h
  obtain ⟨e, he, rfl⟩ := List.mem_map.mp hfile
  refine Path.isNormal_normalize ?_
  rw [(mem_listing_iff.mp (List.mem_filter.mp he).1).2.2.1]
  exact Path.isAbsolute_join (hreach.isAbsolute hroot) _

/-! ### From the system's way to the walk's -/

/-- A step by a name to a directory enters it, where its name is open. -/
theorem mem_dirsIn_of_step {w : World} {dir next : Spot} {k : Nat} {names : List (List Char)}
    {name : List Char} (hnames : ∀ n ∈ names, IsName n) (hname : IsName name)
    (hopen : IsOpenName name)
    (hshort : (ofNames (k + 1) (names ++ [name])).utf8ByteSize < pathLimit)
    (hstep : Step w (w.jump maxLinks) dir (String.ofList name) next)
    (hnode : next.node = some .dir) :
    ⟨String.ofList name, ofNames (k + 1) (names ++ [name]), next⟩ ∈
      w.dirsIn dir (ofNames (k + 1) names) := by
  -- the system's step and the walk's entry lead to one spot
  have hentry : ∃ node, w.nodeAt (dir.location ++ [String.ofList name]) = some node ∧
      w.entrySpot dir (String.ofList name) (ofNames (k + 1) (names ++ [name])) = some next := by
    have hsome : next.node.isSome := by simp [hnode]
    rcases hstep.down_or_follow hname with ⟨hlink, rfl⟩ | ⟨target, htarget, hjump⟩
    · exact ⟨.dir, hnode, entrySpot_eq_some_iff.mpr ⟨hsome, Or.inr ⟨hlink, rfl⟩⟩⟩
    · exact ⟨_, htarget,
        entrySpot_eq_some_iff.mpr ⟨hsome, Or.inl ⟨target, htarget, hshort, hjump⟩⟩⟩
  obtain ⟨node, hnodeAt, hspot⟩ := hentry
  have hdirShort : (ofNames (k + 1) names).utf8ByteSize < pathLimit :=
    Nat.lt_of_le_of_lt (Path.utf8ByteSize_ofNames_le k names [name]) hshort
  refine List.mem_filter.mpr ⟨mem_listing_iff.mpr ⟨hdirShort, ?_, ?_, hspot⟩, ?_⟩
  · exact mem_entries_iff.mpr ⟨node, mem_nodes_of_nodeAt hnodeAt⟩
  · exact (Path.join_ofNames k hnames hname.noSlash).symm
  · have hclosed : isClosedName (String.ofList name) = false := by
      rw [isClosedName_eq_false_iff (by rwa [String.toList_ofList]), String.toList_ofList]
      exact hopen
    simp [hnode, hclosed, isDirNode]

/-- **A directory that is found by open names is reached.** -/
theorem reaches_of_leadWith {w : World} {dir last : Spot} {k : Nat}
    {names below : List (List Char)} (hnames : ∀ n ∈ names, IsName n)
    (hbelow : ∀ n ∈ below, IsName n ∧ IsOpenName n)
    (hshort : (ofNames (k + 1) (names ++ below)).utf8ByteSize < pathLimit)
    (h : leadWith w (w.jump maxLinks) true dir (below.map String.ofList) = .ok last)
    (hlast : last.node = some .dir) :
    Reaches w dir (ofNames (k + 1) names) last (ofNames (k + 1) (names ++ below)) := by
  induction below generalizing dir names with
  | nil =>
    obtain rfl := leadWith_nil_iff.mp h
    rw [List.append_nil]
    exact .refl dir _
  | cons name below ih =>
    obtain ⟨next, hstep, hnext⟩ := leadWith_cons_iff.mp h
    -- a name that is passed moves from the way ahead to the path
    have happend : names ++ name :: below = names ++ [name] ++ below := by simp
    have hnode : next.node = some .dir := node_eq_of_leadWith hnext hlast
    obtain ⟨hname, hopen⟩ := hbelow name (by simp)
    rw [happend] at hshort ⊢
    have hfirst : (ofNames (k + 1) (names ++ [name])).utf8ByteSize < pathLimit :=
      Nat.lt_of_le_of_lt (Path.utf8ByteSize_ofNames_le k (names ++ [name]) below) hshort
    refine .enter (mem_dirsIn_of_step hnames hname hopen hfirst hstep hnode) ?_
    exact ih (List.forall_mem_append.mpr ⟨hnames, List.forall_mem_singleton.mpr hname⟩)
      (fun n hn => hbelow n (by simp [hn])) hshort hnext

/-! ### Walks from further up -/

/-- **Nothing is lost further up**, where only open names are passed. -/
theorem mem_walk_of_append {w : World} {k : Nat} (hk : k + 1 = 1 ∨ k + 1 = 2)
    {names below : List (List Char)} (hnames : ∀ n ∈ names, IsName n)
    (hbelow : ∀ n ∈ below, IsName n ∧ IsOpenName n) {file : String}
    (h : file ∈ w.walk (ofNames (k + 1) (names ++ below))) :
    file ∈ w.walk (ofNames (k + 1) names) := by
  obtain ⟨start, hstart, hnode, last, lastPath, hreach, hfile⟩ := mem_walk_iff.mp h
  obtain ⟨dir, hdir, hdirNode, hlead⟩ :=
    exists_existing_of_append hk hnames (fun n hn => (hbelow n hn).1) hstart hnode
  have hshort := (find_eq_ok_iff.mp (existing_iff.mp hstart).1).2.2.1
  have hdown := reaches_of_leadWith hnames hbelow hshort hlead hnode
  exact mem_walk_iff.mpr ⟨dir, hdir, hdirNode, last, lastPath, hdown.trans hreach, hfile⟩

/-- **The text of a file** that is met below a normal path: open names behind it, and a name. -/
theorem WellNamed.exists_names_of_mem_walk {w : World} (hw : w.WellNamed) {k : Nat}
    (hk : k + 1 = 1 ∨ k + 1 = 2) {names : List (List Char)} (hnames : ∀ n ∈ names, IsName n)
    {file : String} (h : file ∈ w.walk (ofNames (k + 1) names)) :
    ∃ below name, (∀ n ∈ below, IsName n ∧ IsOpenName n) ∧ IsName name ∧
      file = ofNames (k + 1) (names ++ below ++ [name]) := by
  obtain ⟨start, -, -, last, lastPath, hreach, hfile⟩ := mem_walk_iff.mp h
  obtain ⟨below, hbelow, rfl⟩ := hreach.exists_names hw hnames rfl
  have hall : ∀ n ∈ names ++ below, IsName n :=
    List.forall_mem_append.mpr ⟨hnames, fun n hn => (hbelow n hn).1⟩
  obtain ⟨name, hname, rfl⟩ := hw.exists_name_of_mem_filesIn hk hall hfile
  exact ⟨below, name, hbelow, hname, rfl⟩

end TsProject.World

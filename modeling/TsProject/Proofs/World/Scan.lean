import Mathlib.Data.List.Flatten
import Mathlib.Data.List.Nodup
import TsProject.Proofs.World.Tree

/-!
# Walks told by paths

`World.walk` goes down from spot to spot, and the links that are left go down with it. `Scanned`
tells the same walk by its paths alone, as whoever has nothing else walks: a directory is listed
by its path, a link is asked about by the path of its entry, and each of these paths is looked up
from the root, where at most `maxLinks` links are followed. Nothing in it counts levels, so that
a path in a circle of links can only come to an end because the system refuses it.

`Walked.exists_scanned` says that it does: walks by spots and walks by paths are the same in a
tree, because an entry leads from a directory to where its path leads from the root
(`existing_join_iff`). `Scanned.nodup` says that a walk comes to no path twice, and `isFile_join`
how the system answers about the files that it meets.
-/

namespace TsProject.World

open TsProject.Path (IsName IsNormal ofNames trail)

/-! ### Asking by paths -/

/-- **The directory that a path leads to**, if there is one to list. -/
def dirAt? (w : World) (path : String) : Option Location :=
  match w.existing path with
  | .ok ⟨loc, _, some .dir⟩ => some loc
  | _ => none

/-- **What an entry is**: what has its name in the directory, or for a link what its path leads
to. An entry whose path is refused is nothing. -/
def entryNode? (w : World) (loc : Location) (name path : String) : Option Node :=
  match w.nodeAt (loc ++ [name]) with
  | some (.link _) => (w.existing path).toOption.bind Spot.node
  | node => node

/-- The names of the files in a directory, in order. -/
def fileNames (w : World) (loc : Location) (path : String) : List String :=
  (w.entries loc).filter fun name => (w.entryNode? loc name (Path.join path name)).any isFileNode

/-- The names of the directories in a directory that may be entered, in order. -/
def openNames (w : World) (loc : Location) (path : String) : List String :=
  (w.entries loc).filter fun name =>
    (w.entryNode? loc name (Path.join path name)).any isDirNode && !isClosedName name

/-- The paths of the files in a directory. -/
def filePaths (w : World) (loc : Location) (path : String) : List String :=
  (w.fileNames loc path).map fun name => Path.normalize (Path.join path name)

/-- **A walk by paths**: `visits` are the paths that it comes to, `files` those that it gives. A
derivation is finite, so that a walk which has one ends. -/
inductive Scanned (w : World) : (path : String) → (visits files : List String) → Prop
  | refused {path : String} : w.dirAt? path = none → Scanned w path [path] []
  | listed {path : String} {loc : Location} (visitsBelow filesBelow : String → List String) :
    w.dirAt? path = some loc →
      (∀ name ∈ w.openNames loc path,
        Scanned w (Path.join path name) (visitsBelow name) (filesBelow name)) →
      Scanned w path
        (path :: (w.filePaths loc path ++ (w.openNames loc path).flatMap visitsBelow))
        (w.filePaths loc path ++ (w.openNames loc path).flatMap filesBelow)

theorem Scanned.unique {w : World} {path : String} {visits files visits' files' : List String}
    (h : Scanned w path visits files) (h' : Scanned w path visits' files') :
    visits = visits' ∧ files = files' := by
  induction h generalizing visits' files' with
  | refused hnone =>
    cases h' with
    | refused => exact ⟨rfl, rfl⟩
    | listed _ _ hsome _ => cases hnone.symm.trans hsome
  | listed visitsBelow filesBelow hsome _ ih =>
    cases h' with
    | refused hnone => cases hnone.symm.trans hsome
    | listed visitsBelow' filesBelow' hsome' hbelow' =>
      obtain rfl := Option.some.inj (hsome.symm.trans hsome')
      have hsame := fun name hname => ih name hname (hbelow' name hname)
      rw [List.flatMap_congr fun name hname => (hsame name hname).1,
        List.flatMap_congr fun name hname => (hsame name hname).2]
      exact ⟨rfl, rfl⟩

theorem dirAt?_eq_some_iff {w : World} {path : String} {loc : Location} :
    w.dirAt? path = some loc ↔
      ∃ dir, w.existing path = .ok dir ∧ dir.node = some .dir ∧ dir.location = loc := by
  rw [dirAt?]
  constructor
  · intro h
    split at h
    · rename_i hexisting
      exact ⟨_, hexisting, rfl, Option.some.inj h⟩
    · cases h
  · rintro ⟨⟨_, _, _⟩, hexisting, rfl, rfl⟩
    rw [hexisting]

theorem dirAt?_eq_none {w : World} {path : String}
    (h : ∀ dir, w.existing path = .ok dir → dir.node ≠ some .dir) : w.dirAt? path = none := by
  rw [Option.eq_none_iff_forall_ne_some]
  intro loc hloc
  obtain ⟨dir, hexisting, hnode, -⟩ := dirAt?_eq_some_iff.mp hloc
  exact h dir hexisting hnode

/-! ### The paths of entries -/

section Entries

variable {w : World} (hw : w.IsTree) {path : String} (hpath : IsNormal path)
include hw hpath

/-- The path of an entry is a normal path, with the name behind. -/
theorem join_entry {loc : Location} {name : String} (h : name ∈ w.entries loc) :
    IsNormal (Path.join path name) ∧ trail (Path.join path name) = trail path ++ [name.toList] :=
  hpath.join_name (hw.isFileName_of_mem_entries h).isName

theorem join_openName {loc : Location} {name : String} (h : name ∈ w.openNames loc path) :
    IsNormal (Path.join path name) ∧ trail (Path.join path name) = trail path ++ [name.toList] :=
  join_entry hw hpath (List.mem_filter.mp h).1

theorem exists_name_of_mem_filePaths {loc : Location} {file : String}
    (h : file ∈ w.filePaths loc path) : ∃ name ∈ w.fileNames loc path,
      file = Path.join path name ∧ IsNormal file ∧ trail file = trail path ++ [name.toList] := by
  obtain ⟨name, hname, rfl⟩ := List.mem_map.mp h
  obtain ⟨hnormal, htrail⟩ := join_entry hw hpath (List.mem_filter.mp hname).1
  rw [hnormal.normalize_eq]
  exact ⟨name, hname, rfl, hnormal, htrail⟩

theorem nodup_filePaths (loc : Location) : (w.filePaths loc path).Nodup := by
  refine List.Nodup.map_on ?_ ((hw.nodup_entries loc).filter _)
  intro name hname name' hname' heq
  obtain ⟨hnormal, htrail⟩ := join_entry hw hpath (List.mem_filter.mp hname).1
  obtain ⟨hnormal', htrail'⟩ := join_entry hw hpath (List.mem_filter.mp hname').1
  rw [hnormal.normalize_eq, hnormal'.normalize_eq] at heq
  rw [heq, htrail', List.append_cancel_left_eq, List.singleton_inj] at htrail
  exact String.toList_inj.mp htrail.symm

end Entries

/-! ### From the root, and from the directory -/

/-- **A step by a name** that the system takes follows a link, or goes down. -/
theorem step_iff {w : World} {jump : Spot → String → Except OsCause Spot} {dir next : Spot}
    {name : String} (hnode : dir.node = some .dir) (hname : IsFileName name) :
    Step w jump dir name next ↔
      (∃ target, w.nodeAt (dir.location ++ [name]) = some (.link target) ∧
        jump dir target = .ok next) ∨
      ((∀ target, w.nodeAt (dir.location ++ [name]) ≠ some (.link target)) ∧
        next = ⟨dir.location ++ [name], dir.links, w.nodeAt (dir.location ++ [name])⟩) := by
  constructor
  · intro h
    have hstep := h
    rw [← String.ofList_toList (s := name)] at hstep
    simpa only [String.ofList_toList] using (hstep.down_or_follow hname.isName).symm
  · obtain ⟨loc, links, _⟩ := dir
    obtain rfl := hnode
    rintro (⟨target, htarget, hjump⟩ | ⟨hlink, rfl⟩)
    · exact .follow hname.isEntryName htarget hjump
    · exact .down hname.isEntryName hlink

section Entry

variable {w : World} {dir : Spot} {path name : String}

theorem noNull_join (hdir : w.existing path = .ok dir) (hname : IsFileName name) :
    '\x00' ∉ (Path.join path name).toList := by
  intro hmem
  rcases Path.mem_toList_join hmem with hmem | hmem | hmem
  · exact (find_eq_ok_iff.mp (existing_iff.mp hdir).1).1 hmem
  · exact absurd hmem (by decide)
  · exact hname.noNull hmem

variable (hpath : IsNormal path) (hdir : w.existing path = .ok dir) (hname : IsFileName name)
include hpath hdir hname

/-- **Where the path of an entry leads** from the root: one step by its name from where the path
of its directory leads. -/
theorem existing_join_iff {next : Spot} : w.existing (Path.join path name) = .ok next ↔
    (Path.join path name).utf8ByteSize < pathLimit ∧ next.node.isSome ∧
      Step w (w.jump maxLinks) dir name next := by
  have hnull := noNull_join hdir hname
  obtain ⟨k, names, hk, hnames, rfl⟩ := hpath.exists_names
  have hall : ∀ n ∈ names ++ [name.toList], IsName n :=
    List.forall_mem_append.mpr ⟨hnames, List.forall_mem_singleton.mpr hname.isName⟩
  have hjoin : Path.join (ofNames (k + 1) names) name =
      ofNames (k + 1) (names ++ [name.toList]) := by
    rw [← Path.join_ofNames k hnames hname.isName.noSlash, String.ofList_toList]
  obtain ⟨-, -, hlead, -⟩ := (existing_ofNames_iff hk hnames).mp hdir
  rw [hjoin] at hnull ⊢
  rw [existing_ofNames_iff hk hall, List.map_append, leadWith_append_iff]
  simp only [hlead, List.map_cons, List.map_nil, String.ofList_toList, leadWith_cons_iff,
    leadWith_nil_iff, Except.ok.injEq, exists_eq_left', exists_eq_right, hnull, not_false_eq_true,
    true_and]
  rw [and_comm (a := Step _ _ _ _ _)]

variable (hnode : dir.node = some .dir)
include hnode

/-- An entry with a path that is not too long is where its path leads. -/
theorem existing_of_entrySpot {next : Spot}
    (h : w.entrySpot dir name (Path.join path name) = some next)
    (hshort : (Path.join path name).utf8ByteSize < pathLimit) :
    w.existing (Path.join path name) = .ok next := by
  obtain ⟨hsome, hway⟩ := entrySpot_eq_some_iff.mp h
  rw [existing_join_iff hpath hdir hname, step_iff hnode hname]
  exact ⟨hshort, hsome, hway.imp_left fun ⟨target, htarget, _, hjump⟩ => ⟨target, htarget, hjump⟩⟩

/-- A link is an entry if its path leads anywhere. -/
theorem entrySpot_of_existing {next : Spot} {target : String}
    (hlink : w.nodeAt (dir.location ++ [name]) = some (.link target))
    (h : w.existing (Path.join path name) = .ok next) :
    w.entrySpot dir name (Path.join path name) = some next := by
  rw [existing_join_iff hpath hdir hname, step_iff hnode hname] at h
  obtain ⟨hshort, hsome, ⟨target', htarget, hjump⟩ | ⟨hno, -⟩⟩ := h
  · exact entrySpot_eq_some_iff.mpr ⟨hsome, .inl ⟨target', htarget, hshort, hjump⟩⟩
  · exact absurd hlink (hno target)

/-- **What an entry is** is the node that its directory leads to. -/
theorem entryNode?_join : w.entryNode? dir.location name (Path.join path name) =
    (w.entrySpot dir name (Path.join path name)).bind Spot.node := by
  rw [entryNode?]
  split
  · rename_i target hlink
    -- a link is there for the one question exactly if it is for the other
    refine congrArg (Option.bind · Spot.node) (Option.ext fun next => ⟨fun h => ?_, fun h => ?_⟩)
    · cases hexisting : w.existing (Path.join path name) with
      | error e => rw [hexisting] at h; cases h
      | ok spot =>
        rw [hexisting] at h
        exact entrySpot_of_existing hpath hdir hname hnode hlink (Option.some.inj h ▸ hexisting)
    · obtain ⟨-, ⟨_, -, hshort, -⟩ | ⟨hno, -⟩⟩ := entrySpot_eq_some_iff.mp h
      · rw [existing_of_entrySpot hpath hdir hname hnode h hshort]
        rfl
      · exact absurd hlink (hno target)
  · rename_i hno
    cases hat : w.nodeAt (dir.location ++ [name]) with
    | none => simp [entrySpot, hat]
    | some node =>
      have hspot : w.entrySpot dir name (Path.join path name) =
          some ⟨dir.location ++ [name], dir.links, some node⟩ :=
        entrySpot_eq_some_iff.mpr ⟨rfl, .inr ⟨hno, by rw [hat]⟩⟩
      rw [hspot]
      rfl

end Entry

/-! ### Listings -/

theorem any_isDirNode_iff {node : Option Node} : node.any isDirNode ↔ node = some .dir := by
  cases node <;> simp [isDirNode]

/-- The entry of a name in a listing that has it. -/
def entryAt (w : World) (dir : Spot) (path name : String) : Entry :=
  let path := Path.join path name
  ⟨name, path, (w.entrySpot dir name path).getD dir⟩

/-- The entries that pass a check, by their names. -/
theorem filter_listing {w : World} {dir : Spot} {path : String}
    (hshort : path.utf8ByteSize < pathLimit) (check : Entry → Bool) :
    (w.listing dir path).filter check =
      ((w.entries dir.location).filter fun name =>
        (w.entrySpot dir name (Path.join path name)).any fun spot =>
          check ⟨name, Path.join path name, spot⟩).map (w.entryAt dir path) := by
  rw [listing, if_neg (Nat.not_le.mpr hshort)]
  generalize w.entries dir.location = names
  induction names with
  | nil => rfl
  | cons name names ih =>
    cases hspot : w.entrySpot dir name (Path.join path name) with
    | none =>
      rw [List.filterMap_cons_none (by simp [hspot]), ih, List.filter_cons_of_neg (by simp [hspot])]
    | some spot =>
      rw [List.filterMap_cons_some (by simp [hspot]; rfl)]
      have hentry : w.entryAt dir path name = ⟨name, Path.join path name, spot⟩ := by
        simp [entryAt, hspot]
      by_cases hcheck : check ⟨name, Path.join path name, spot⟩
      · rw [List.filter_cons_of_pos hcheck, ih, List.filter_cons_of_pos (by simpa [hspot]),
          List.map_cons, hentry]
      · rw [List.filter_cons_of_neg hcheck, ih,
          List.filter_cons_of_neg (by simpa [hspot] using hcheck)]

section Listing

variable {w : World} (hw : w.IsTree) {dir : Spot} {path : String}
variable (hpath : IsNormal path) (hdir : w.existing path = .ok dir)
variable (hnode : dir.node = some .dir)
include hw hpath hdir hnode

/-- Checks of what an entry is and of its name. -/
theorem filter_listing_node (kind : Node → Bool) (good : String → Bool) :
    ((w.listing dir path).filter fun e => e.spot.node.any kind && good e.name) =
      ((w.entries dir.location).filter fun name =>
        (w.entryNode? dir.location name (Path.join path name)).any kind && good name).map
          (w.entryAt dir path) := by
  rw [filter_listing (find_eq_ok_iff.mp (existing_iff.mp hdir).1).2.2.1]
  refine congrArg (List.map _) (List.filter_congr fun name hname => ?_)
  rw [entryNode?_join hpath hdir (hw.isFileName_of_mem_entries hname) hnode]
  cases w.entrySpot dir name (Path.join path name) <;> simp

theorem filesIn_eq : w.filesIn dir path = w.filePaths dir.location path := by
  have hfiles := filter_listing_node hw hpath hdir hnode isFileNode fun _ => true
  simp only [Bool.and_true] at hfiles
  rw [filesIn, hfiles, List.map_map, filePaths, fileNames]
  rfl

theorem dirsIn_eq : w.dirsIn dir path =
    (w.openNames dir.location path).map (w.entryAt dir path) :=
  filter_listing_node hw hpath hdir hnode isDirNode fun name => !isClosedName name

/-- A name that may be entered leads to a directory, and further down. -/
theorem exists_entry_of_mem_openNames {name : String} (h : name ∈ w.openNames dir.location path) :
    ∃ next, w.entryAt dir path name = ⟨name, Path.join path name, next⟩ ∧
      next.node = some .dir ∧ w.levels next < w.levels dir ∧
      ((Path.join path name).utf8ByteSize < pathLimit →
        w.existing (Path.join path name) = .ok next) := by
  obtain ⟨hmem, hopen⟩ := List.mem_filter.mp h
  have hname := hw.isFileName_of_mem_entries hmem
  rw [entryNode?_join hpath hdir hname hnode] at hopen
  cases hspot : w.entrySpot dir name (Path.join path name) with
  | none => simp [hspot] at hopen
  | some next =>
    have hnext : next.node = some .dir := by
      rw [hspot, Option.bind_some] at hopen
      exact any_isDirNode_iff.mp (Bool.and_eq_true_iff.mp hopen).1
    exact ⟨next, by simp [entryAt, hspot], hnext, levels_lt_of_entrySpot hspot,
      existing_of_entrySpot hpath hdir hname hnode hspot⟩

end Listing

/-! ### Walks by spots are walks by paths -/

/-- **A walk by spots** is one by paths, if its path leads to its spot or is too long to lead
anywhere. None of its paths is longer than the levels that are left allow. -/
theorem Walked.exists_scanned {w : World} (hw : w.IsTree) {dir : Spot} {path : String}
    {files : List String} (h : Walked w dir path files) (hpath : IsNormal path)
    (hnode : dir.node = some .dir)
    (hdir : path.utf8ByteSize < pathLimit → w.existing path = .ok dir) :
    ∃ visits, Scanned w path visits files ∧
      ∀ visit ∈ visits, (trail visit).length ≤ (trail path).length + w.levels dir + 1 := by
  induction h with
  | @dir dir path below hbelow ih =>
    by_cases hshort : path.utf8ByteSize < pathLimit
    · specialize hdir hshort
      have hlisted : w.dirAt? path = some dir.location :=
        dirAt?_eq_some_iff.mpr ⟨dir, hdir, hnode, rfl⟩
      rw [dirsIn_eq hw hpath hdir hnode] at ih
      -- what is below an entry is below its name
      have hscans : ∀ name ∈ w.openNames dir.location path, ∃ visits,
          Scanned w (Path.join path name) visits (below (w.entryAt dir path name)) ∧
            ∀ visit ∈ visits, (trail visit).length ≤ (trail path).length + w.levels dir + 1 := by
        intro name hname
        obtain ⟨hnormal, htrail⟩ := join_openName hw hpath hname
        obtain ⟨next, hentry, hnext, hlevels, hfound⟩ :=
          exists_entry_of_mem_openNames hw hpath hdir hnode hname
        have hscan := ih _ (List.mem_map_of_mem hname)
        rw [hentry] at hscan ⊢
        obtain ⟨visits, hvisits, hlength⟩ := hscan hnormal hnext hfound
        refine ⟨visits, hvisits, fun visit hvisit => ?_⟩
        have hle : (trail visit).length ≤
            (trail (Path.join path name)).length + w.levels next + 1 := hlength visit hvisit
        rw [htrail, List.length_append, List.length_singleton] at hle
        omega
      choose! visitsBelow hvisits using hscans
      have hscan := Scanned.listed visitsBelow (fun name => below (w.entryAt dir path name)) hlisted
        fun name hname => (hvisits name hname).1
      rw [filesIn_eq hw hpath hdir hnode, dirsIn_eq hw hpath hdir hnode, List.flatMap_map]
      refine ⟨_, hscan, fun visit hvisit => ?_⟩
      rcases List.mem_cons.mp hvisit with rfl | hvisit
      · omega
      · rcases List.mem_append.mp hvisit with hvisit | hvisit
        · obtain ⟨name, -, -, -, htrail⟩ := exists_name_of_mem_filePaths hw hpath hvisit
          rw [htrail, List.length_append, List.length_singleton]
          omega
        · obtain ⟨name, hname, hvisit⟩ := List.mem_flatMap.mp hvisit
          exact (hvisits name hname).2 visit hvisit
    · -- a path that is too long lists nothing, whoever asks
      have hnone : w.dirAt? path = none := dirAt?_eq_none fun found hfound _ =>
        hshort (find_eq_ok_iff.mp (existing_iff.mp hfound).1).2.2.1
      have hlisting : w.listing dir path = [] := if_pos (Nat.not_lt.mp hshort)
      rw [filesIn, dirsIn, hlisting]
      refine ⟨_, .refused hnone, fun visit hvisit => ?_⟩
      obtain rfl := List.mem_singleton.mp hvisit
      omega

/-- **Every walk ends**: a path that leads to no directory lists nothing, and from a directory
the levels are limited by the links and by the depth of the tree. -/
theorem exists_scanned_walk {w : World} (hw : w.IsTree) {start : String} (hstart : IsNormal start) :
    ∃ visits, Scanned w start visits (w.walk start) ∧ ∀ visit ∈ visits,
      (trail visit).length ≤ (trail start).length + (maxLinks + 1) * (w.depth + 2) := by
  by_cases hdir : ∃ dir, w.existing start = .ok dir ∧ dir.node = some .dir
  · obtain ⟨dir, hdir, hnode⟩ := hdir
    have hlevels : w.levels dir < w.walkLevels := levels_lt_walkLevels (links_le_of_existing hdir)
    have hwalk : w.walk start = w.walkFrom w.walkLevels dir start := by
      rw [walk, hdir]
      exact if_pos hnode
    obtain ⟨visits, hvisits, hlength⟩ :=
      (walked_walkFrom start hlevels).exists_scanned hw hstart hnode fun _ => hdir
    refine ⟨visits, hwalk ▸ hvisits, fun visit hvisit => ?_⟩
    have hle := hlength visit hvisit
    unfold walkLevels at hlevels
    omega
  · have hnone : w.dirAt? start = none :=
      dirAt?_eq_none fun dir hexisting hnode => hdir ⟨dir, hexisting, hnode⟩
    have hwalk : w.walk start = [] := by
      rw [walk]
      split
      · rename_i dir hexisting
        exact if_neg fun hnode => hdir ⟨dir, hexisting, hnode⟩
      · rfl
    rw [hwalk]
    refine ⟨_, .refused hnone, fun visit hvisit => ?_⟩
    obtain rfl := List.mem_singleton.mp hvisit
    omega

/-! ### What a walk comes to -/

theorem eq_of_prefix_concat {trail other : List (List Char)} {name name' : String}
    (h : trail ++ [name.toList] <+: other) (h' : trail ++ [name'.toList] <+: other) :
    name = name' := by
  have heq := (List.prefix_of_prefix_length_le h h' (by simp)).eq_of_length (by simp)
  exact String.toList_inj.mp (List.singleton_inj.mp (List.append_cancel_left heq))

theorem Scanned.sublist {w : World} {path : String} {visits files : List String}
    (h : Scanned w path visits files) : files.Sublist visits := by
  induction h with
  | refused => exact List.nil_sublist _
  | listed _ _ _ _ ih => exact ((List.Sublist.refl _).append (.flatMap_right _ ih)).cons _

/-- **A walk stays below** its path. -/
theorem Scanned.prefix_trail {w : World} (hw : w.IsTree) {path : String} (hpath : IsNormal path)
    {visits files : List String} (h : Scanned w path visits files) :
    ∀ visit ∈ visits, IsNormal visit ∧ trail path <+: trail visit := by
  induction h with
  | refused =>
    intro visit hvisit
    obtain rfl := List.mem_singleton.mp hvisit
    exact ⟨hpath, List.prefix_refl _⟩
  | listed _ _ _ _ ih =>
    intro visit hvisit
    rcases List.mem_cons.mp hvisit with rfl | hvisit
    · exact ⟨hpath, List.prefix_refl _⟩
    · rcases List.mem_append.mp hvisit with hvisit | hvisit
      · obtain ⟨name, -, -, hnormal, htrail⟩ := exists_name_of_mem_filePaths hw hpath hvisit
        exact ⟨hnormal, htrail ▸ List.prefix_append _ _⟩
      · obtain ⟨name, hname, hvisit⟩ := List.mem_flatMap.mp hvisit
        obtain ⟨hnormal, htrail⟩ := join_openName hw hpath hname
        obtain ⟨hvisitNormal, hprefix⟩ := ih name hname hnormal visit hvisit
        rw [htrail] at hprefix
        exact ⟨hvisitNormal, (List.prefix_append _ _).trans hprefix⟩

/-- An entry is a file or a directory, and not both. -/
theorem not_mem_openNames_of_mem_fileNames {w : World} {loc : Location} {path name : String}
    (h : name ∈ w.fileNames loc path) : name ∉ w.openNames loc path := by
  intro hopen
  have hfile := (List.mem_filter.mp h).2
  have hdir := (Bool.and_eq_true_iff.mp (List.mem_filter.mp hopen).2).1
  rw [any_isDirNode_iff.mp hdir] at hfile
  cases hfile

/-- **No path twice**: the files of a directory and what is below its directories are behind
different names. -/
theorem Scanned.nodup {w : World} (hw : w.IsTree) {path : String} (hpath : IsNormal path)
    {visits files : List String} (h : Scanned w path visits files) : visits.Nodup := by
  induction h with
  | refused => exact List.nodup_singleton _
  | @listed path loc visitsBelow filesBelow _ hbelow ih =>
    have hfiles := fun file (h : file ∈ w.filePaths loc path) =>
      exists_name_of_mem_filePaths hw hpath h
    have hvisits : ∀ name ∈ w.openNames loc path, ∀ visit ∈ visitsBelow name,
        trail path ++ [name.toList] <+: trail visit := by
      intro name hname visit hvisit
      obtain ⟨hnormal, htrail⟩ := join_openName hw hpath hname
      rw [← htrail]
      exact ((hbelow name hname).prefix_trail hw hnormal visit hvisit).2
    rw [List.nodup_cons, List.nodup_append, List.nodup_flatMap, List.mem_append, not_or]
    refine ⟨⟨fun hmem => ?_, fun hmem => ?_⟩, nodup_filePaths hw hpath loc,
      ⟨fun name hname => ?_, ?_⟩, ?_⟩
    · -- the path itself has fewer names than what comes behind it
      obtain ⟨name, -, -, -, htrail⟩ := hfiles path hmem
      simp at htrail
    · obtain ⟨name, hname, hmem⟩ := List.mem_flatMap.mp hmem
      have hlength := (hvisits name hname path hmem).length_le
      simp at hlength
    · exact ih name hname (join_openName hw hpath hname).1
    · refine ((hw.nodup_entries loc).filter _).imp_of_mem fun {a b} ha hb hne => ?_
      refine List.disjoint_left.mpr fun visit hvisit hvisit' => ?_
      exact hne (eq_of_prefix_concat (hvisits a ha visit hvisit) (hvisits b hb visit hvisit'))
    · rintro file hfile visit hvisit rfl
      obtain ⟨name, hname, -, -, htrail⟩ := hfiles file hfile
      obtain ⟨name', hname', hvisit⟩ := List.mem_flatMap.mp hvisit
      have hprefix := hvisits name' hname' file hvisit
      rw [htrail] at hprefix
      obtain rfl := eq_of_prefix_concat (List.prefix_refl _) hprefix
      exact not_mem_openNames_of_mem_fileNames hname hname'

/-! ### The files of a walk -/

/-- **A file that a listing gives**: in the directory that its path is put together from there is
an entry of its name, which says that it is a file. -/
def IsListedFile (w : World) (file : String) : Prop :=
  ∃ dir loc name, w.dirAt? dir = some loc ∧ name ∈ w.entries loc ∧ file = Path.join dir name ∧
    (w.entryNode? loc name file).any isFileNode

/-- The system finds the file of an entry by its path, if that is not too long. -/
theorem isFile_join {w : World} {dir : Spot} {path name : String} (hpath : IsNormal path)
    (hdir : w.existing path = .ok dir) (hnode : dir.node = some .dir) (hname : IsFileName name)
    (h : (w.entryNode? dir.location name (Path.join path name)).any isFileNode) :
    w.isFile (Path.join path name) =
      if (Path.join path name).utf8ByteSize < pathLimit then .ok true
      else .error ⟨.nameTooLong, Path.join path name⟩ := by
  rw [isFile, ask]
  split_ifs with hshort
  · rw [entryNode?_join hpath hdir hname hnode] at h
    obtain ⟨node, hentry, hfile⟩ := (Option.any_eq_true _ _).mp h
    obtain ⟨next, hnext, hnextNode⟩ := Option.bind_eq_some_iff.mp hentry
    rw [existing_of_entrySpot hpath hdir hname hnode hnext hshort]
    simp [hnextNode, hfile]
  · have hlong : w.existing (Path.join path name) =
        .error (.refused ⟨.nameTooLong, Path.join path name⟩) := by
      have hne : Path.join path name ≠ "" := by
        intro hempty
        rw [hempty] at hshort
        exact hshort (by decide)
      have hnull := noNull_join hdir hname
      rw [existing, find, lead, if_neg (by simpa using hnull), if_neg hne,
        if_pos (Nat.not_lt.mp hshort)]
      rfl
    rw [hlong]
    rfl

theorem Scanned.isFile_of_mem {w : World} (hw : w.IsTree) {path : String} (hpath : IsNormal path)
    {visits files : List String} (h : Scanned w path visits files) :
    ∀ file ∈ files, IsListedFile w file ∧ w.isFile file =
      if file.utf8ByteSize < pathLimit then .ok true else .error ⟨.nameTooLong, file⟩ := by
  induction h with
  | refused => simp
  | @listed path loc _ _ hlisted _ ih =>
    intro file hfile
    rcases List.mem_append.mp hfile with hfile | hfile
    · obtain ⟨name, hname, rfl, -, -⟩ := exists_name_of_mem_filePaths hw hpath hfile
      obtain ⟨hentry, hfile⟩ := List.mem_filter.mp hname
      refine ⟨⟨path, loc, name, hlisted, hentry, rfl, hfile⟩, ?_⟩
      obtain ⟨dir, hdir, hnode, rfl⟩ := dirAt?_eq_some_iff.mp hlisted
      exact isFile_join hpath hdir hnode (hw.isFileName_of_mem_entries hentry) hfile
    · obtain ⟨name, hname, hfile⟩ := List.mem_flatMap.mp hfile
      exact ih name hname (join_openName hw hpath hname).1 file hfile

/-- **Walks**, specified. In a tree a walk from a normal path is the one walk by paths, in which
each path is looked up from the root and refused behind its `maxLinks` links: it ends, whatever
circles the links make, after going down no more levels than there are links on a way, each with
the depth of the tree. It comes to no path twice, and every path that it gives is one of which
the listing says that it is a file, as the system does unless the path is too long to ask. -/
theorem walk_spec {w : World} (hw : w.IsTree) {start : String} (hstart : IsNormal start) :
    (∃ visits, Scanned w start visits (w.walk start) ∧ visits.Nodup ∧ ∀ visit ∈ visits,
      (trail visit).length ≤ (trail start).length + (maxLinks + 1) * (w.depth + 2)) ∧
    (∀ visits files, Scanned w start visits files → files = w.walk start) ∧
    (w.walk start).Nodup ∧
    ∀ file ∈ w.walk start, IsListedFile w file ∧ w.isFile file =
      if file.utf8ByteSize < pathLimit then .ok true else .error ⟨.nameTooLong, file⟩ := by
  obtain ⟨visits, hvisits, hlength⟩ := exists_scanned_walk hw hstart
  have hnodup := hvisits.nodup hw hstart
  exact ⟨⟨visits, hvisits, hnodup, hlength⟩, fun _ _ hother => (hother.unique hvisits).2,
    hnodup.sublist hvisits.sublist, hvisits.isFile_of_mem hw hstart⟩

/-- A directory with a source, and with a link that leads back to it. -/
def circle : World :=
  { nodes := [(["p"], .dir), (["p", "a.ts"], .file [] false), (["p", "back"], .link "../p")] }

/-- In a circle a path is refused behind 40 links, so that the way around it ends. -/
theorem walk_circle : circle.IsTree ∧ IsNormal "/p" ∧
    (∃ visits, Scanned circle "/p" visits (circle.walk "/p") ∧ visits.Nodup ∧
      ∀ visit ∈ visits,
        (trail visit).length ≤ (trail "/p").length + (maxLinks + 1) * (circle.depth + 2)) ∧
    (∀ visits files, Scanned circle "/p" visits files → files = circle.walk "/p") ∧
    (circle.walk "/p").Nodup ∧
    ∀ file ∈ circle.walk "/p", IsListedFile circle file ∧ circle.isFile file =
      if file.utf8ByteSize < pathLimit then .ok true else .error ⟨.nameTooLong, file⟩ :=
  ⟨by decide, ⟨by decide, by decide⟩, walk_spec (by decide) ⟨by decide, by decide⟩⟩

end TsProject.World

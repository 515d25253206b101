import Mathlib.Tactic.Ring
import Mathlib.Tactic.SplitIfs
import TsProject.Proofs.Text.Order
import TsProject.Proofs.World.Lookup
import TsProject.Selection.Walk

/-!
# Walks end

Going down from a directory either enters a directory of the tree, whose location is longer, or
follows a link, of which fewer are left afterwards. `World.levels` counts both, links first, and
becomes smaller with every entry (`levels_lt_of_mem_listing`); so the levels that `World.walk`
allows for are never used up.

`Walked` says what a walk is without counting anything: the files of a directory in order of
name, and then the walks of its open directories in order of name. `walkedAll_flatMap_walk` says
that `World.walk` gives such walks, and `Walked.unique` that there are no others.
-/

namespace TsProject.World

/-! ### Levels -/

theorem length_le_depth_of_mem {w : World} {loc : Location} {node : Node}
    (h : (loc, node) ∈ w.nodes) : loc.length ≤ w.depth := by
  have hfold : ∀ (nodes : List (Location × Node)) (d : Nat),
      d ≤ nodes.foldl (fun d entry => max d entry.1.length) d ∧
        ∀ entry ∈ nodes, entry.1.length ≤
          nodes.foldl (fun d entry => max d entry.1.length) d := by
    intro nodes
    induction nodes with
    | nil => simp
    | cons first nodes ih =>
      intro d
      have hfirst := (ih (max d first.1.length)).1
      refine ⟨by simp only [List.foldl_cons]; omega, fun entry hentry => ?_⟩
      rcases List.mem_cons.mp hentry with rfl | hentry
      · simp only [List.foldl_cons]
        omega
      · exact (ih _).2 entry hentry
  exact (hfold w.nodes 0).2 _ h

theorem mem_nodes_of_nodeAt {w : World} {loc : Location} {name : String} {node : Node}
    (h : w.nodeAt (loc ++ [name]) = some node) : (loc ++ [name], node) ∈ w.nodes := by
  rw [nodeAt, if_neg (by simp)] at h
  obtain ⟨before, after, heq, -⟩ := List.lookup_eq_some_iff.mp h
  rw [heq]
  simp

/-- **The levels left** at a spot: as many as the tree is deep for every link left, and those
below its location. -/
def levels (w : World) (spot : Spot) : Nat :=
  spot.links * (w.depth + 1) + (w.depth - spot.location.length)

theorem levels_lt_of_links_lt {w : World} {spot next : Spot} (h : next.links < spot.links) :
    w.levels next < w.levels spot := by
  have hmul : (next.links + 1) * (w.depth + 1) ≤ spot.links * (w.depth + 1) :=
    Nat.mul_le_mul_right _ h
  rw [Nat.succ_mul] at hmul
  unfold levels
  omega

theorem levels_lt_of_length_lt {w : World} {spot next : Spot} (hlinks : next.links = spot.links)
    (hlength : spot.location.length < next.location.length)
    (hdepth : next.location.length ≤ w.depth) : w.levels next < w.levels spot := by
  unfold levels
  rw [hlinks]
  omega

theorem levels_lt_walkLevels {w : World} {spot : Spot} (h : spot.links ≤ maxLinks) :
    w.levels spot < w.walkLevels := by
  have hmul : spot.links * (w.depth + 1) ≤ maxLinks * (w.depth + 1) := Nat.mul_le_mul_right _ h
  unfold levels walkLevels
  rw [show (maxLinks + 1) * (w.depth + 2) =
    maxLinks * (w.depth + 1) + maxLinks + (w.depth + 2) by ring]
  omega

/-! ### Entries -/

/-- Where an entry leads: through a link, or to the node of its name. -/
theorem entrySpot_eq_some_iff {w : World} {dir next : Spot} {name path : String} :
    w.entrySpot dir name path = some next ↔ next.node.isSome ∧
      ((∃ target, w.nodeAt (dir.location ++ [name]) = some (.link target) ∧
          path.utf8ByteSize < pathLimit ∧ w.jump maxLinks dir target = .ok next) ∨
        ((∀ target, w.nodeAt (dir.location ++ [name]) ≠ some (.link target)) ∧
          next = ⟨dir.location ++ [name], dir.links, w.nodeAt (dir.location ++ [name])⟩)) := by
  unfold entrySpot
  dsimp only
  cases hnode : w.nodeAt (dir.location ++ [name]) with
  | none =>
    -- without a node there is no entry, and no spot that has one
    simp only [reduceCtorEq, false_and, exists_false, false_or, false_iff, not_and]
    rintro hsome -
    rintro rfl
    simp at hsome
  | some node =>
    cases node with
    | link target =>
      by_cases hlong : pathLimit ≤ path.utf8ByteSize
      · simp [hlong, Nat.not_lt.mpr hlong]
      · cases hjump : w.jump maxLinks dir target with
        | error cause => simp [hlong, hjump]
        | ok spot =>
          simp only [hlong, if_false, hjump, Option.some.injEq, Node.link.injEq,
            exists_eq_left', Nat.not_le.mp hlong, true_and, Except.ok.injEq, forall_eq',
            false_and, or_false, ne_eq]
          constructor
          · intro h
            split_ifs at h with hsome
            cases h
            exact ⟨hsome, rfl⟩
          · rintro ⟨hsome, rfl⟩
            simp [hsome]
    | dir | file =>
      simp only [Option.some.injEq, reduceCtorEq, false_and, exists_false, false_or, ne_eq,
        not_false_eq_true, implies_true, true_and]
      constructor
      · rintro rfl
        exact ⟨rfl, rfl⟩
      · rintro ⟨-, rfl⟩
        rfl

/-- **Every entry is further down**: fewer levels are left there. -/
theorem levels_lt_of_entrySpot {w : World} {dir next : Spot} {name path : String}
    (h : w.entrySpot dir name path = some next) : w.levels next < w.levels dir := by
  obtain ⟨hsome, ⟨target, -, -, hjump⟩ | ⟨-, rfl⟩⟩ := entrySpot_eq_some_iff.mp h
  · exact levels_lt_of_links_lt (links_lt_of_jump hjump)
  · obtain ⟨node, hnode⟩ := Option.isSome_iff_exists.mp hsome
    exact levels_lt_of_length_lt rfl (by simp) (length_le_depth_of_mem (mem_nodes_of_nodeAt hnode))

/-- The entries of a directory that lead somewhere. -/
theorem mem_listing_iff {w : World} {dir : Spot} {path : String} {e : Entry} :
    e ∈ w.listing dir path ↔ path.utf8ByteSize < pathLimit ∧ e.name ∈ w.entries dir.location ∧
      e.path = Path.join path e.name ∧ w.entrySpot dir e.name e.path = some e.spot := by
  unfold listing
  by_cases hlong : pathLimit ≤ path.utf8ByteSize
  · simp [hlong, Nat.not_lt.mpr hlong]
  · simp only [hlong, if_false, List.mem_filterMap, Option.map_eq_some_iff, Nat.not_le.mp hlong,
      true_and]
    constructor
    · rintro ⟨name, hname, spot, hspot, rfl⟩
      exact ⟨hname, rfl, hspot⟩
    · rintro ⟨hname, hpath, hspot⟩
      refine ⟨e.name, hname, e.spot, by rwa [← hpath], ?_⟩
      rw [← hpath]

theorem levels_lt_of_mem_listing {w : World} {dir : Spot} {path : String} {e : Entry}
    (h : e ∈ w.listing dir path) : w.levels e.spot < w.levels dir :=
  levels_lt_of_entrySpot (mem_listing_iff.mp h).2.2.2

/-- **Entries are listed by name.** -/
theorem pairwise_name_listing (w : World) (dir : Spot) (path : String) :
    (w.listing dir path).Pairwise fun a b => a.name ≤ b.name := by
  unfold listing
  split_ifs
  · exact List.Pairwise.nil
  · refine (Text.pairwise_mergeSort _).filterMap _ ?_
    intro a b hab entry hentry entry' hentry'
    obtain ⟨spot, -, rfl⟩ := Option.map_eq_some_iff.mp hentry
    obtain ⟨spot', -, rfl⟩ := Option.map_eq_some_iff.mp hentry'
    exact hab

/-! ### Walks -/

/-- The files of a directory, in order of name. -/
def filesIn (w : World) (dir : Spot) (path : String) : List String :=
  ((w.listing dir path).filter fun e => e.spot.node.any isFileNode).map fun e =>
    Path.normalize e.path

/-- The directories in a directory that may be entered, in order of name. -/
def dirsIn (w : World) (dir : Spot) (path : String) : List Entry :=
  (w.listing dir path).filter fun e => e.spot.node.any isDirNode && !isClosedName e.name

/-- **What a walk is**: the files of a directory, then what walks of its open directories are. -/
inductive Walked (w : World) : Spot → String → List String → Prop
  | dir {dir : Spot} {path : String} (below : Entry → List String) :
    (∀ e ∈ w.dirsIn dir path, Walked w e.spot e.path (below e)) →
      Walked w dir path (w.filesIn dir path ++ (w.dirsIn dir path).flatMap below)

theorem Walked.unique {w : World} {dir : Spot} {path : String} {first second : List String}
    (h : Walked w dir path first) (h' : Walked w dir path second) : first = second := by
  induction h generalizing second with
  | dir below _ ih =>
    cases h' with
    | dir below' hbelow' =>
      exact congrArg _ (List.flatMap_congr fun e he => ih e he (hbelow' e he))

/-- Levels enough are never used up. -/
theorem walked_walkFrom {w : World} {fuel : Nat} {dir : Spot} (path : String)
    (h : w.levels dir < fuel) : Walked w dir path (w.walkFrom fuel dir path) := by
  induction fuel generalizing dir path with
  | zero => omega
  | succ fuel ih =>
    refine .dir (fun e => w.walkFrom fuel e.spot e.path) fun e he => ih e.path ?_
    have hlt := levels_lt_of_mem_listing (List.mem_filter.mp he |>.1)
    omega

/-- **Walks of some roots**, one after the other; a root that leads to no directory has nothing
below it. -/
inductive WalkedAll (w : World) : (roots files : List String) → Prop
  | nil : WalkedAll w [] []
  | dir {root : String} {roots files rest : List String} {spot : Spot} :
    w.existing root = .ok spot → spot.node = some .dir → Walked w spot root files →
      WalkedAll w roots rest → WalkedAll w (root :: roots) (files ++ rest)
  | noDir {root : String} {roots rest : List String} :
    (∀ spot, w.existing root = .ok spot → spot.node ≠ some .dir) →
      WalkedAll w roots rest → WalkedAll w (root :: roots) rest

/-- **Walking** walks what is below its root. -/
theorem walkedAll_flatMap_walk (w : World) (roots : List String) :
    WalkedAll w roots (roots.flatMap w.walk) := by
  induction roots with
  | nil => exact .nil
  | cons root roots ih =>
    rw [List.flatMap_cons]
    by_cases hdir : ∃ spot, w.existing root = .ok spot ∧ spot.node = some .dir
    · obtain ⟨spot, hspot, hnode⟩ := hdir
      refine .dir hspot hnode ?_ ih
      rw [walk, hspot]
      simp only [hnode, if_true]
      exact walked_walkFrom root (levels_lt_walkLevels (links_le_of_existing hspot))
    · have hnone : w.walk root = [] := by
        rw [walk]
        split
        · rename_i spot hspot
          exact if_neg fun hnode => hdir ⟨spot, hspot, hnode⟩
        · rfl
      rw [hnone, List.nil_append]
      exact .noDir (fun spot hspot hnode => hdir ⟨spot, hspot, hnode⟩) ih

theorem WalkedAll.unique {w : World} {roots first second : List String}
    (h : WalkedAll w roots first) (h' : WalkedAll w roots second) : first = second := by
  induction h generalizing second with
  | nil =>
    cases h'
    rfl
  | dir hspot hnode hfiles _ ih =>
    cases h' with
    | dir hspot' _ hfiles' hrest' =>
      obtain rfl := Except.ok.inj (hspot.symm.trans hspot')
      rw [hfiles.unique hfiles', ih hrest']
    | noDir hno _ => exact absurd hnode (hno _ hspot)
  | noDir hno _ ih =>
    cases h' with
    | dir hspot hnode _ _ => exact absurd hnode (hno _ hspot)
    | noDir _ hrest' => exact ih hrest'

end TsProject.World

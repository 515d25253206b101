import Mathlib.Data.List.Nodup
import Mathlib.Data.List.Perm.Subperm
import TsProject.Config.Layer
import TsProject.Proofs.World.Finding
import TsProject.Proofs.World.Levels

/-!
# How many files can extend one another

The files of a chain are different normal paths that lead to nodes. The names of such a path are
names of nodes, and every name goes down at least one level (`levels_lt_of_step`), so that the
paths are among finitely many (`mem_nodePaths`), and `Config.maxChain` bounds their number:
`length_le_maxChain`. A collection that starts with that much fuel never runs out of it, because
its chain gets longer by a new file as the fuel gets less (`HasRoom`).
-/

namespace TsProject

open TsProject.Path (IsName IsNormal ofNames)

/-! ### Words -/

section Words

variable {α : Type}

/-- The lists of at most `n` letters. -/
def words (letters : List α) : (n : Nat) → List (List α)
  | 0 => [[]]
  | n + 1 => [] :: letters.flatMap fun a => (words letters n).map (a :: ·)

theorem mem_words {letters word : List α} {n : Nat} (hlength : word.length ≤ n)
    (h : ∀ a ∈ word, a ∈ letters) : word ∈ words letters n := by
  induction n generalizing word with
  | zero =>
    obtain rfl : word = [] := List.eq_nil_of_length_eq_zero (Nat.le_zero.mp hlength)
    exact List.mem_singleton_self _
  | succ n ih =>
    cases word with
    | nil => exact List.mem_cons_self
    | cons a word =>
      have hrest := ih (Nat.le_of_succ_le_succ hlength) fun b hb => h b (by simp [hb])
      exact List.mem_cons_of_mem _
        (List.mem_flatMap.mpr ⟨a, h a (by simp), List.mem_map_of_mem hrest⟩)

theorem length_words_le (letters : List α) (n : Nat) :
    (words letters n).length ≤ (letters.length + 1) ^ n := by
  induction n with
  | zero => simp [words]
  | succ n ih =>
    have hpos : 1 ≤ (letters.length + 1) ^ n := Nat.one_le_pow _ _ (Nat.succ_pos _)
    have hlength : (words letters (n + 1)).length =
        letters.length * (words letters n).length + 1 := by
      simp [words, List.length_flatMap]
    calc (words letters (n + 1)).length
        = letters.length * (words letters n).length + 1 := hlength
      _ ≤ letters.length * (letters.length + 1) ^ n + (letters.length + 1) ^ n :=
          Nat.add_le_add (Nat.mul_le_mul_left _ ih) hpos
      _ = (letters.length + 1) ^ (n + 1) := by ring

end Words

namespace World

/-! ### Paths that lead to nodes -/

/-- The last names of nodes. -/
def lastNames (w : World) : List String := w.nodes.filterMap fun entry => entry.1.getLast?

theorem mem_lastNames_of_nodeAt {w : World} {loc : Location} {name : String} {node : Node}
    (h : w.nodeAt (loc ++ [name]) = some node) : name ∈ w.lastNames :=
  List.mem_filterMap.mpr ⟨_, mem_nodes_of_nodeAt h, by simp⟩

/-- **A step by a name** goes down at least one level, by the name of a node. -/
theorem levels_lt_of_step {w : World} {n : Nat} {spot next : Spot} {name : List Char}
    (hname : IsName name) (h : Step w (w.jump n) spot (String.ofList name) next)
    (hsome : next.node.isSome) :
    w.levels next < w.levels spot ∧ String.ofList name ∈ w.lastNames := by
  rcases h.down_or_follow hname with ⟨-, rfl⟩ | ⟨target, htarget, hjump⟩
  · obtain ⟨node, hnode⟩ := Option.isSome_iff_exists.mp hsome
    have hdepth := length_le_depth_of_mem (mem_nodes_of_nodeAt hnode)
    exact ⟨levels_lt_of_length_lt rfl (by simp) hdepth, mem_lastNames_of_nodeAt hnode⟩
  · exact ⟨levels_lt_of_links_lt (links_lt_of_jump hjump), mem_lastNames_of_nodeAt htarget⟩

/-- **A way by names to a node** has no more names than levels, and they are names of nodes. -/
theorem length_le_levels_of_leadWith {w : World} {n : Nat} {spot last : Spot}
    {names : List (List Char)} (hnames : ∀ name ∈ names, IsName name)
    (h : leadWith w (w.jump n) true spot (names.map String.ofList) = .ok last)
    (hlast : last.node.isSome) :
    names.length ≤ w.levels spot ∧ ∀ name ∈ names, String.ofList name ∈ w.lastNames := by
  induction names generalizing spot with
  | nil => simp
  | cons name names ih =>
    obtain ⟨next, hstep, hnext⟩ := leadWith_cons_iff.mp h
    obtain ⟨hlevels, hmem⟩ :=
      levels_lt_of_step (hnames name (by simp)) hstep (isSome_of_leadWith hnext hlast)
    obtain ⟨hlength, hmems⟩ := ih (fun m hm => hnames m (by simp [hm])) hnext
    refine ⟨by simp only [List.length_cons]; omega, fun m hm => ?_⟩
    rcases List.mem_cons.mp hm with rfl | hm
    · exact hmem
    · exact hmems m hm

/-- The normal paths that can lead to a node. -/
def nodePaths (w : World) : List String :=
  (words w.lastNames w.walkLevels).flatMap fun word =>
    [ofNames 1 (word.map String.toList), ofNames 2 (word.map String.toList)]

theorem mem_nodePaths {w : World} {path : String} (hpath : IsNormal path) {spot : Spot}
    (h : w.existing path = .ok spot) : path ∈ w.nodePaths := by
  obtain ⟨k, names, hroot, hnames, rfl⟩ := hpath.exists_names
  obtain ⟨-, -, hlead, hsome⟩ := (existing_ofNames_iff hroot hnames).mp h
  obtain ⟨hlength, hmem⟩ := length_le_levels_of_leadWith hnames hlead hsome
  have hlevels : w.levels ⟨[], maxLinks, some .dir⟩ < w.walkLevels :=
    levels_lt_walkLevels (Nat.le_refl _)
  -- a name cannot lead on without a node that has it as its last name
  have hword : names.map String.ofList ∈ words w.lastNames w.walkLevels := by
    refine mem_words (by rw [List.length_map]; omega) fun name hname => ?_
    obtain ⟨n, hn, rfl⟩ := List.mem_map.mp hname
    exact hmem n hn
  have hback : (names.map String.ofList).map String.toList = names := by
    simp [Function.comp_def]
  refine List.mem_flatMap.mpr ⟨_, hword, ?_⟩
  rw [hback]
  rcases hroot with hroot | hroot <;> simp [hroot]

theorem length_nodePaths_le (w : World) : w.nodePaths.length ≤ Config.maxChain w := by
  have hletters : w.lastNames.length + 1 ≤ w.nodes.length + 2 :=
    Nat.add_le_add (List.length_filterMap_le _ _) (by decide)
  have hlength : w.nodePaths.length = 2 * (words w.lastNames w.walkLevels).length := by
    simp [nodePaths, List.length_flatMap, Nat.mul_comm]
  calc w.nodePaths.length
      = 2 * (words w.lastNames w.walkLevels).length := hlength
    _ ≤ 2 * (w.nodes.length + 2) ^ w.walkLevels :=
        Nat.mul_le_mul_left _ ((length_words_le _ _).trans (Nat.pow_le_pow_left hletters _))
    _ ≤ 2 * (w.nodes.length + 2) ^ (w.walkLevels + 1) :=
        Nat.mul_le_mul_left _ (Nat.pow_le_pow_right (Nat.succ_pos _) (Nat.le_succ _))

theorem isAbsolute_cwdText (w : World) : Path.isAbsolute w.cwdText :=
  Path.isAbsolute_iff.mpr ⟨_, by rw [cwdText, String.toList_append]; rfl⟩

/-- A path that can be read leads to a node. -/
theorem exists_existing_of_readText {w : World} {path text : String}
    (h : w.readText path = .ok text) : ∃ spot, w.existing path = .ok spot := by
  obtain ⟨bytes, hbytes, -⟩ := bind_ok_iff.mp h
  obtain ⟨spot, hspot, -⟩ := bind_ok_iff.mp (mapError_ok_iff.mp hbytes)
  exact ⟨spot, hspot⟩

end World

namespace Config

/-! ### Configuration files -/

/-- A normal path that holds a configuration. -/
structure IsConfigFile (w : World) (path : String) : Prop where
  isNormal : IsNormal path
  readable : ∃ fields, readFile w path = .ok (.ok fields)

theorem IsConfigFile.mem_nodePaths {w : World} {path : String} (h : IsConfigFile w path) :
    path ∈ w.nodePaths := by
  obtain ⟨fields, hfields⟩ := h.readable
  rw [readFile] at hfields
  split at hfields
  · rename_i text htext
    obtain ⟨spot, hspot⟩ := World.exists_existing_of_readText htext
    exact World.mem_nodePaths h.isNormal hspot
  · cases hfields
  · split_ifs at hfields <;> cases hfields
  · cases hfields

/-- **Chains are bounded**: different configuration files are no more than `maxChain`. -/
theorem length_le_maxChain {w : World} {chain : List String} (hnodup : chain.Nodup)
    (h : ∀ path ∈ chain, IsConfigFile w path) : chain.length ≤ maxChain w := by
  have hsubset : chain ⊆ w.nodePaths := fun path hpath => (h path hpath).mem_nodePaths
  exact (hnodup.subperm hsubset).length_le.trans w.length_nodePaths_le

/-- **A chain with room below it**: its files are different, and there are not enough of them in
the world to use up the fuel. -/
structure HasRoom (w : World) (chain : List String) (fuel : Nat) : Prop where
  nodup : chain.Nodup
  files : ∀ path ∈ chain, IsConfigFile w path
  room : maxChain w < chain.length + fuel

theorem HasRoom.exists_succ {w : World} {chain : List String} {fuel : Nat}
    (h : HasRoom w chain fuel) : ∃ n, fuel = n + 1 := by
  have hlength := length_le_maxChain h.nodup h.files
  have hroom := h.room
  exact Nat.exists_eq_succ_of_ne_zero (by omega)

theorem HasRoom.append {w : World} {chain : List String} {fuel : Nat} {path : String}
    (h : HasRoom w chain (fuel + 1)) (hnew : path ∉ chain) (hfile : IsConfigFile w path) :
    HasRoom w (chain ++ [path]) fuel where
  nodup := List.concat_eq_append ▸ List.Nodup.concat hnew h.nodup
  files := List.forall_mem_append.mpr ⟨h.files, by simpa using hfile⟩
  room := by
    have hroom := h.room
    rw [List.length_append, List.length_singleton]
    omega

theorem hasRoom_singleton {w : World} {path : String} (h : IsConfigFile w path) :
    HasRoom w [path] (maxChain w) where
  nodup := List.nodup_singleton path
  files := by simpa using h
  room := by simp

/-- What a caller means is a normal path. -/
theorem isNormal_of_locate {w : World} {path located : String} (h : locate w path = .ok located) :
    IsNormal located := by
  obtain ⟨expanded, -, h⟩ := bind_ok_iff.mp h
  have habsolute : Path.isAbsolute
      (if Path.isAbsolute expanded then expanded else Path.child w.cwdText expanded) := by
    split_ifs with hexpanded
    · exact hexpanded
    · exact Path.isAbsolute_child w.isAbsolute_cwdText expanded
  dsimp only at h
  generalize (if Path.isAbsolute expanded then expanded else Path.child w.cwdText expanded) =
    full at h habsolute
  obtain ⟨isDir, -, h⟩ := bind_ok_iff.mp h
  rw [← Except.ok.inj h]
  refine Path.isNormal_normalize ?_
  split_ifs
  · exact Path.isAbsolute_child habsolute defaultName
  · exact habsolute

/-- A base that is found is a normal path. -/
theorem isNormal_of_findBase {w : World} {spec baseDir target : String}
    (h : findBase w spec baseDir = .ok (some target)) : IsNormal target := by
  obtain ⟨found, -, h⟩ := bind_ok_iff.mp h
  obtain ⟨path, -, rfl⟩ := Option.map_eq_some_iff.mp (Except.ok.inj h)
  refine Path.isNormal_normalize ?_
  split_ifs with habsolute
  · exact habsolute
  · exact Path.isAbsolute_child w.isAbsolute_cwdText path

end Config

end TsProject

import TsProject.Proofs.Path.Normal
import TsProject.Proofs.World.Lookup
import TsProject.World.Setup

/-!
# Worlds have names

Every name in a location of a file system leads one directory down: it is not empty, not `.`,
not `..` and holds no slash. `WellNamed` says so of a world. The empty world is well named, and
whatever is looked up in a well named world lies at a location with names
(`WellNamed.hasNames_of_find`), so that placing, writing, removing and moving keep it that way.

All of these changes put a node where a path leads, remove nodes or move the working directory:
`IsInvariant` says of a property of worlds that these three keep it.
-/

namespace TsProject.World

open TsProject.Path (IsName)

/-- A location that consists of names. -/
def HasNames (loc : Location) : Prop := ∀ name ∈ loc, IsName name.toList

instance (loc : Location) : Decidable (HasNames loc) :=
  inferInstanceAs (Decidable (∀ name ∈ loc, IsName name.toList))

theorem HasNames.concat {loc : Location} {name : String} (h : HasNames loc)
    (hname : IsName name.toList) : HasNames (loc ++ [name]) :=
  List.forall_mem_append.mpr ⟨h, List.forall_mem_singleton.mpr hname⟩

theorem HasNames.dropLast {loc : Location} (h : HasNames loc) : HasNames loc.dropLast :=
  fun n hn => h n ((List.dropLast_sublist loc).subset hn)

/-- **Every node and the working directory have names**, as in any file system. -/
structure WellNamed (w : World) : Prop where
  nodes : ∀ entry ∈ w.nodes, HasNames entry.1
  cwd : HasNames w.cwd

instance (w : World) : Decidable w.WellNamed :=
  decidable_of_iff ((∀ entry ∈ w.nodes, HasNames entry.1) ∧ HasNames w.cwd)
    ⟨fun ⟨hnodes, hcwd⟩ => ⟨hnodes, hcwd⟩, fun ⟨hnodes, hcwd⟩ => ⟨hnodes, hcwd⟩⟩

/-! ### Looking up -/

theorem noSlash_of_mem_names {path name : String} (h : name ∈ names path) : '/' ∉ name.toList := by
  obtain ⟨piece, hpiece, rfl⟩ := List.mem_map.mp h
  rw [String.toList_ofList]
  exact Text.not_mem_of_mem_splitOnChar hpiece

theorem IsEntryName.isName {name : String} (h : IsEntryName name) (hslash : '/' ∉ name.toList) :
    IsName name.toList := by
  refine ⟨fun hnil => h.ne_empty ?_, fun hdot => h.ne_dot ?_, fun hup => h.ne_up ?_, hslash⟩
  · exact String.toList_inj.mp hnil
  · exact String.toList_inj.mp hdot
  · exact String.toList_inj.mp hup

section Location

variable {w : World} {P : String → Prop}

/-- **What all names of a way have in common**, those of the links on it included, the names of
the location have in common where it ends. -/
theorem forall_location_of_leadWith {jump : Spot → String → Except OsCause Spot}
    (hjump : ∀ {loc target spot next}, w.nodeAt loc = some (.link target) →
      jump spot target = .ok next → (∀ n ∈ spot.location, P n) → ∀ n ∈ next.location, P n)
    {follow : Bool} {spot result : Spot} {names : List String}
    (hnames : ∀ name ∈ names, IsEntryName name → P name)
    (h : leadWith w jump follow spot names = .ok result) (hspot : ∀ n ∈ spot.location, P n) :
    ∀ n ∈ result.location, P n := by
  induction names generalizing spot with
  | nil =>
    obtain rfl : spot = result := by simpa [leadWith] using h
    exact hspot
  | cons name rest ih =>
    have hrest : ∀ name ∈ rest, IsEntryName name → P name := fun n hn => hnames n (by simp [hn])
    rw [leadWith] at h
    split at h
    · cases h
    · split_ifs at h with hlong hidle hup hlast
      · exact ih hrest h hspot
      · exact ih hrest h fun n hn => hspot n ((List.dropLast_sublist _).subset hn)
      all_goals
        -- a name that is looked up in a directory has got past the tests for the others
        have hdown : ∀ n ∈ spot.location ++ [name], P n := by
          simp only [Bool.or_eq_true, decide_eq_true_eq, not_or] at hidle
          refine List.forall_mem_append.mpr ⟨hspot, List.forall_mem_singleton.mpr ?_⟩
          exact hnames name (by simp) ⟨hidle.1, hidle.2, hup, Nat.not_lt.mp hlong⟩
        dsimp only at h
        split at h
      · exact Except.ok.inj h ▸ hdown
      · exact ih hrest h hdown
      · rename_i hlink
        obtain ⟨next, hnext, h⟩ := bind_ok_iff.mp h
        exact ih hrest h (hjump hlink hnext hspot)
      · exact ih hrest h hdown
    · cases h

section Found

variable (htargets : ∀ {loc target}, w.nodeAt loc = some (.link target) →
  ∀ name ∈ names target, IsEntryName name → P name)
include htargets

theorem forall_location_of_jump {n : Nat} {spot next : Spot} {target : String}
    (htarget : ∀ name ∈ names target, IsEntryName name → P name)
    (h : jump w n spot target = .ok next) (hspot : ∀ n ∈ spot.location, P n) :
    ∀ n ∈ next.location, P n := by
  induction n generalizing spot next target with
  | zero => cases h
  | succ n ih =>
    rw [jump] at h
    split_ifs at h
    refine forall_location_of_leadWith (fun hlink => ih (htargets hlink)) htarget h ?_
    rw [origin]
    split_ifs
    · simp
    · exact hspot

/-- **Where a path leads**, the names have in common what those of the path, of the links and of
the working directory have. -/
theorem forall_location_of_find {follow : Bool} {path : String} {spot : Spot}
    (hpath : ∀ name ∈ names path, IsEntryName name → P name) (hcwd : ∀ n ∈ w.cwd, P n)
    (h : w.find follow path = .ok spot) : ∀ n ∈ spot.location, P n := by
  obtain ⟨-, -, -, hlead⟩ := find_eq_ok_iff.mp h
  refine forall_location_of_leadWith
    (fun hlink => forall_location_of_jump htargets (htargets hlink)) hpath hlead ?_
  rw [start, origin]
  split_ifs
  · simp
  · exact hcwd

end Found

end Location

/-- **What is looked up** lies at a location with names. -/
theorem WellNamed.hasNames_of_find {w : World} (hw : w.WellNamed) {follow : Bool} {path : String}
    {spot : Spot} (h : w.find follow path = .ok spot) : HasNames spot.location :=
  forall_location_of_find (fun _ _ hname hentry => hentry.isName (noSlash_of_mem_names hname))
    (fun _ hname hentry => hentry.isName (noSlash_of_mem_names hname)) hw.cwd h

/-! ### Changing the tree -/

/-- **An invariant**: kept where a node that fits is put where a path leads, where nodes are
removed, and where the working directory is moved. -/
structure IsInvariant (Fits : Node → Prop) (I : World → Prop) : Prop where
  dir : Fits .dir
  file : ∀ bytes executable, Fits (.file bytes executable)
  put : ∀ {w follow path loc links found node}, I w →
    w.find follow path = .ok ⟨loc, links, found⟩ → Fits node → I (w.put loc node)
  filter : ∀ {w} (keep : Location × Node → Bool), I w → I { w with nodes := w.nodes.filter keep }
  move : ∀ {w path spot}, I w → w.existing path = .ok spot → I { w with cwd := spot.location }

namespace IsInvariant

variable {Fits : Node → Prop} {I : World → Prop} (hI : IsInvariant Fits I)
variable {w changed : World} (hw : I w) {path : String}
include hI hw

theorem makeDirs (path : String) : I (w.makeDirs path) := by
  have hdir : ∀ {w : World} (path : String), I w → I (makeDirs.makeDir w path) := by
    intro w path hw
    rw [makeDirs.makeDir]
    split
    · rename_i hfind
      exact hI.put hw hfind hI.dir
    · exact hw
  have hdirs : ∀ (paths : List String) {w : World}, I w →
      I (paths.foldl makeDirs.makeDir w) := by
    intro paths
    induction paths with
    | nil => exact fun hw => hw
    | cons path paths ih => exact fun hw => ih (hdir path hw)
  exact hdir path (hdirs _ hw)

/-- **Placing a node** keeps an invariant. -/
theorem place (path : String) {node : Node} (hnode : Fits node) : I (w.place path node) := by
  have hdirs := hI.makeDirs hw (Path.parent path)
  unfold World.place
  dsimp only
  split
  · exact hI.makeDirs hdirs path
  · split
    · rename_i hfind
      exact hI.put hdirs hfind hnode
    · exact hdirs
  · split
    · rename_i hfind
      exact hI.put hdirs hfind hnode
    · rename_i hfind
      exact hI.put hdirs hfind hnode
    · exact hdirs

/-- **Writing a file** keeps an invariant, also where it is broken off. -/
theorem write {stop? : Option WriteStop} {bytes : List UInt8} {cause? : Option OsCause}
    (h : w.write stop? path bytes = .ok (changed, cause?)) : I changed := by
  obtain ⟨_, hfill, h⟩ := bind_ok_iff.mp h
  obtain ⟨rfl, -⟩ := Prod.mk.inj (Except.ok.inj h)
  obtain ⟨spot, hfind, hfill⟩ := bind_ok_iff.mp hfill
  split at hfill
  · cases hfill
  · exact Except.ok.inj hfill ▸ hI.put hw hfind (hI.file _ _)
  · exact Except.ok.inj hfill ▸ hI.put hw hfind (hI.file _ _)

/-- **Removing a file** keeps an invariant. -/
theorem unlink (h : w.unlink path = .ok changed) : I changed := by
  rw [World.unlink] at h
  split at h
  · exact Except.ok.inj h ▸ hw
  · cases h
  · split at h
    · exact Except.ok.inj h ▸ hw
    · cases h
    · exact Except.ok.inj h ▸ hI.filter _ hw

/-- **Removing a tree** keeps an invariant. -/
theorem removeTree (h : w.removeTree path = .ok changed) : I changed := by
  obtain ⟨spot, -, h⟩ := bind_ok_iff.mp h
  split_ifs at h
  exact Except.ok.inj h ▸ hI.filter _ hw

/-- **Moving to a directory** keeps an invariant. -/
theorem changeDir (h : w.changeDir path = .ok changed) : I changed := by
  obtain ⟨spot, hspot, h⟩ := bind_ok_iff.mp h
  split_ifs at h
  exact Except.ok.inj h ▸ hI.move hw hspot

end IsInvariant

theorem mem_nodes_put {w : World} {loc : Location} {node : Node} {entry : Location × Node}
    (h : entry ∈ (w.put loc node).nodes) : entry = (loc, node) ∨ entry ∈ w.nodes := by
  rw [put] at h
  split_ifs at h
  · obtain ⟨old, hold, rfl⟩ := List.mem_map.mp h
    split_ifs
    · exact .inl rfl
    · exact .inr hold
  · rcases List.mem_append.mp h with h | h
    · exact .inr h
    · exact .inl (List.mem_singleton.mp h)

theorem cwd_put (w : World) (loc : Location) (node : Node) : (w.put loc node).cwd = w.cwd := by
  rw [put]
  split_ifs <;> rfl

/-- **Worlds stay well named**, whatever is done to them. -/
theorem isInvariant_wellNamed : IsInvariant (fun _ => True) WellNamed where
  dir := trivial
  file _ _ := trivial
  put hw hfind _ := by
    refine ⟨fun entry hentry => ?_, by rw [cwd_put]; exact hw.cwd⟩
    rcases mem_nodes_put hentry with rfl | hentry
    · exact hw.hasNames_of_find hfind
    · exact hw.nodes entry hentry
  filter keep hw := ⟨fun entry hentry => hw.nodes entry (List.mem_filter.mp hentry).1, hw.cwd⟩
  move hw hspot := ⟨hw.nodes, hw.hasNames_of_find (existing_iff.mp hspot).1⟩

example : WellNamed {} := by decide

end TsProject.World

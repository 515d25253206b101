import TsProject.Proofs.World.Reach

/-!
# File trees

A world is a list of nodes, and not every list is a file system. In one, a location has one node,
and every name is one that the system takes: it leads one directory down, is short enough and
holds no null character, which no link's target holds either. `IsTree` says so of a world. The
empty world is a tree, and whatever is done to a tree leaves one (`isInvariant_isTree`).

In a tree the names in a directory are listed once (`IsTree.nodup_entries`).
-/

namespace TsProject

/-- The node can be followed, if it is a link: its target holds no null character. -/
def Node.HasPathText : Node → Prop
  | .link target => '\x00' ∉ target.toList
  | _ => True

instance (node : Node) : Decidable node.HasPathText :=
  match node with
  | .link target => inferInstanceAs (Decidable ('\x00' ∉ target.toList))
  | .dir => inferInstanceAs (Decidable True)
  | .file _ _ => inferInstanceAs (Decidable True)

namespace World

open TsProject.Path (IsName)

/-- **A name that the system takes** for an entry of a directory. -/
structure IsFileName (name : String) : Prop where
  isName : IsName name.toList
  short : name.utf8ByteSize ≤ maxNameBytes
  noNull : '\x00' ∉ name.toList

instance (name : String) : Decidable (IsFileName name) :=
  decidable_of_iff (IsName name.toList ∧ name.utf8ByteSize ≤ maxNameBytes ∧ '\x00' ∉ name.toList)
    ⟨fun ⟨hname, hshort, hnull⟩ => ⟨hname, hshort, hnull⟩,
      fun ⟨hname, hshort, hnull⟩ => ⟨hname, hshort, hnull⟩⟩

theorem IsFileName.isEntryName {name : String} (h : IsFileName name) : IsEntryName name := by
  refine ⟨?_, ?_, ?_, h.short⟩
  · rintro rfl
    exact h.isName.ne_nil rfl
  · rintro rfl
    exact h.isName.ne_dot rfl
  · rintro rfl
    exact h.isName.ne_up rfl

/-- **A file tree**, as every file system is one. -/
structure IsTree (w : World) : Prop where
  nodes : ∀ entry ∈ w.nodes, ∀ name ∈ entry.1, IsFileName name
  cwd : ∀ name ∈ w.cwd, IsFileName name
  targets : ∀ entry ∈ w.nodes, entry.2.HasPathText
  distinct : (w.nodes.map Prod.fst).Nodup

instance (w : World) : Decidable w.IsTree :=
  decidable_of_iff ((∀ entry ∈ w.nodes, ∀ name ∈ entry.1, IsFileName name) ∧
      (∀ name ∈ w.cwd, IsFileName name) ∧ (∀ entry ∈ w.nodes, entry.2.HasPathText) ∧
      (w.nodes.map Prod.fst).Nodup)
    ⟨fun ⟨hnodes, hcwd, htargets, hdistinct⟩ => ⟨hnodes, hcwd, htargets, hdistinct⟩,
      fun ⟨hnodes, hcwd, htargets, hdistinct⟩ => ⟨hnodes, hcwd, htargets, hdistinct⟩⟩

example : IsTree {} := by decide

namespace IsTree

variable {w : World} (hw : w.IsTree)
include hw

/-! ### Listings -/

theorem isFileName_of_mem_entries {loc : Location} {name : String} (h : name ∈ w.entries loc) :
    IsFileName name := by
  obtain ⟨node, hmem⟩ := mem_entries_iff.mp h
  exact hw.nodes _ hmem name (by simp)

/-- **A directory lists a name once.** -/
theorem nodup_entries (loc : Location) : (w.entries loc).Nodup := by
  rw [entries, (List.mergeSort_perm _ _).nodup_iff]
  refine (List.pairwise_map.mp hw.distinct).filterMap _ fun a b hne name ha name' hb heq => hne ?_
  -- entries that list one name below one location are at one location
  subst heq
  split_ifs at ha hb with hloc hloc'
  obtain ⟨before, hbefore⟩ := List.getLast?_eq_some_iff.mp ha
  obtain ⟨before', hbefore'⟩ := List.getLast?_eq_some_iff.mp hb
  rw [hbefore, List.dropLast_concat] at hloc
  rw [hbefore', List.dropLast_concat] at hloc'
  rw [hbefore, hbefore', hloc, hloc']

/-! ### Looking up -/

theorem noNull_of_nodeAt_link {loc : Location} {target : String}
    (h : w.nodeAt loc = some (.link target)) : '\x00' ∉ target.toList := by
  rw [nodeAt] at h
  split_ifs at h
  · cases h
  · obtain ⟨before, behind, hnodes, -⟩ := List.lookup_eq_some_iff.mp h
    exact hw.targets (loc, .link target) (by simp [hnodes])

/-- **What is looked up** lies at a location with names that the system takes. -/
theorem isFileName_of_find {follow : Bool} {path : String} {spot : Spot}
    (h : w.find follow path = .ok spot) : ∀ name ∈ spot.location, IsFileName name := by
  have hnames : ∀ {text : String}, '\x00' ∉ text.toList →
      ∀ name ∈ names text, IsEntryName name → IsFileName name := by
    intro text hnull name hname hentry
    refine ⟨hentry.isName (noSlash_of_mem_names hname), hentry.short, fun hmem => hnull ?_⟩
    obtain ⟨piece, hpiece, rfl⟩ := List.mem_map.mp hname
    rw [String.toList_ofList] at hmem
    exact Text.mem_of_mem_splitOnChar hpiece hmem
  exact forall_location_of_find (fun hlink => hnames (hw.noNull_of_nodeAt_link hlink))
    (hnames (find_eq_ok_iff.mp h).1) hw.cwd h

end IsTree

/-- A node is put at a location of its own, or in the place of another one. -/
theorem nodup_put {w : World} (h : (w.nodes.map Prod.fst).Nodup) (loc : Location) (node : Node) :
    ((w.put loc node).nodes.map Prod.fst).Nodup := by
  rw [put]
  split_ifs with hsome
  · have hkept : (Prod.fst ∘ fun entry => if entry.1 = loc then (loc, node) else entry) =
        (Prod.fst : Location × Node → Location) := by
      funext entry
      dsimp only [Function.comp]
      split_ifs with hloc
      · exact hloc.symm
      · rfl
    rwa [List.map_map, hkept]
  · rw [List.map_append, List.nodup_append]
    refine ⟨h, List.pairwise_singleton _ _, ?_⟩
    rintro other hother _ hloc rfl
    obtain rfl := List.mem_singleton.mp hloc
    obtain ⟨⟨_, old⟩, hold, rfl⟩ := List.mem_map.mp hother
    have hnone := List.lookup_eq_none_iff.mp (Option.not_isSome_iff_eq_none.mp hsome) _ hold
    simp at hnone

/-- **Trees stay trees**, whatever is done to them. -/
theorem isInvariant_isTree : IsInvariant Node.HasPathText IsTree where
  dir := trivial
  file _ _ := trivial
  put hw hfind hnode := by
    refine ⟨fun entry hentry => ?_, by rw [cwd_put]; exact hw.cwd, fun entry hentry => ?_,
      nodup_put hw.distinct _ _⟩
    · rcases mem_nodes_put hentry with rfl | hentry
      · exact hw.isFileName_of_find hfind
      · exact hw.nodes entry hentry
    · rcases mem_nodes_put hentry with rfl | hentry
      · exact hnode
      · exact hw.targets entry hentry
  filter keep hw :=
    ⟨fun entry hentry => hw.nodes entry (List.mem_filter.mp hentry).1, hw.cwd,
      fun entry hentry => hw.targets entry (List.mem_filter.mp hentry).1,
      hw.distinct.sublist (List.filter_sublist.map _)⟩
  move hw hspot :=
    ⟨hw.nodes, hw.isFileName_of_find (existing_iff.mp hspot).1, hw.targets, hw.distinct⟩

end World

end TsProject

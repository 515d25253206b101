import TsProject.Proofs.Path.Below
import TsProject.Proofs.World.Lookup

/-!
# Finding normal paths

A normal path is found by leading its names from the root (`existing_ofNames_iff`): its other
components are empty and lead nowhere else. A name goes down, or follows a link
(`Step.down_or_follow`), and a path that begins another one is found on the way of that
(`exists_existing_of_append`).
-/

namespace TsProject.World

open TsProject.Path (IsName ofNames)

section Names

variable {w : World} {jump : Spot → String → Except OsCause Spot}

/-- **A step by a name** goes down, or follows a link. -/
theorem Step.down_or_follow {spot next : Spot} {name : List Char}
    (h : Step w jump spot (String.ofList name) next) (hname : IsName name) :
    ((∀ target, w.nodeAt (spot.location ++ [String.ofList name]) ≠ some (.link target)) ∧
        next = ⟨spot.location ++ [String.ofList name], spot.links,
          w.nodeAt (spot.location ++ [String.ofList name])⟩) ∨
      ∃ target, w.nodeAt (spot.location ++ [String.ofList name]) = some (.link target) ∧
        jump spot target = .ok next := by
  -- the text is made a variable, since a constructor fixes it
  generalize htext : String.ofList name = text at h ⊢
  cases h with
  | stay hidle =>
    rcases hidle with rfl | rfl
    · exact absurd (String.ofList_injective htext) hname.ne_nil
    · exact absurd (String.ofList_injective htext) hname.ne_dot
  | up => exact absurd (String.ofList_injective htext) hname.ne_up
  | down _ hlink => exact Or.inl ⟨hlink, rfl⟩
  | follow _ htarget hjump => exact Or.inr ⟨_, htarget, hjump⟩

/-- Empty names lead nowhere else. -/
theorem leadWith_replicate_append {follow : Bool} {loc : Location} {links : Nat} (n : Nat)
    (names : List String) :
    leadWith w jump follow ⟨loc, links, some .dir⟩ (List.replicate n "" ++ names) =
      leadWith w jump follow ⟨loc, links, some .dir⟩ names := by
  induction n with
  | zero => rfl
  | succ n ih =>
    have hempty : ∀ rest, leadWith w jump follow ⟨loc, links, some .dir⟩ ("" :: rest) =
        leadWith w jump follow ⟨loc, links, some .dir⟩ rest := fun _ => rfl
    rw [List.replicate_succ, List.cons_append, hempty, ih]

/-- Of a normal path only the names lead anywhere. -/
theorem leadWith_names_ofNames {follow : Bool} {loc : Location} {links k : Nat}
    {names : List (List Char)} (h : ∀ n ∈ names, IsName n) :
    leadWith w jump follow ⟨loc, links, some .dir⟩ (World.names (ofNames (k + 1) names)) =
      leadWith w jump follow ⟨loc, links, some .dir⟩ (names.map String.ofList) := by
  have hparts : World.names (ofNames (k + 1) names) =
      (Path.parts (Path.assemble (k + 1) names)).map String.ofList := by
    rw [← Path.toList_ofNames]
    rfl
  rw [hparts]
  by_cases hne : names = []
  · rw [hne, Path.assemble_succ_nil, Path.parts_replicate, List.map_replicate,
      ← List.append_nil (List.replicate _ _), leadWith_replicate_append]
    rfl
  · rw [Path.parts_assemble k hne h, List.map_append, List.map_replicate,
      leadWith_replicate_append]

end Names

section Finding

variable {w : World} {k : Nat} (hk : k + 1 = 1 ∨ k + 1 = 2) {names : List (List Char)}
variable (h : ∀ n ∈ names, IsName n)
include hk h

/-- **Finding a normal path** leads its names from the root. -/
theorem existing_ofNames_iff {spot : Spot} :
    w.existing (ofNames (k + 1) names) = .ok spot ↔
      '\x00' ∉ (ofNames (k + 1) names).toList ∧
        (ofNames (k + 1) names).utf8ByteSize < pathLimit ∧
        leadWith w (w.jump maxLinks) true ⟨[], maxLinks, some .dir⟩
          (names.map String.ofList) = .ok spot ∧ spot.node.isSome := by
  have habsolute := (Path.isNormal_ofNames hk h).isAbsolute
  have hne : ofNames (k + 1) names ≠ "" := by
    intro hempty
    rw [hempty] at habsolute
    exact absurd habsolute (by decide)
  -- an absolute path starts at the root, wherever the working directory is
  rw [existing_iff, find_eq_ok_iff, start, origin, if_pos habsolute, leadWith_names_ofNames h]
  simp [hne, and_assoc]

/-- The directory that a directory's path begins with is found too, and leads on to it. -/
theorem exists_existing_of_append {below : List (List Char)} (hbelow : ∀ n ∈ below, IsName n)
    {last : Spot} (hlast : w.existing (ofNames (k + 1) (names ++ below)) = .ok last)
    (hnode : last.node = some .dir) :
    ∃ dir, w.existing (ofNames (k + 1) names) = .ok dir ∧ dir.node = some .dir ∧
      leadWith w (w.jump maxLinks) true dir (below.map String.ofList) = .ok last := by
  have hall : ∀ n ∈ names ++ below, IsName n := List.forall_mem_append.mpr ⟨h, hbelow⟩
  obtain ⟨hnull, hshort, hlead, -⟩ := (existing_ofNames_iff hk hall).mp hlast
  rw [List.map_append] at hlead
  obtain ⟨dir, hdir, hrest⟩ := leadWith_append_iff.mp hlead
  have hdirNode := node_eq_of_leadWith hrest hnode
  refine ⟨dir, (existing_ofNames_iff hk h).mpr ⟨fun hmem => hnull ?_, ?_, hdir, ?_⟩,
    hdirNode, hrest⟩
  · rw [Path.toList_ofNames] at hmem ⊢
    exact (Path.assemble_prefix k names below).subset hmem
  · exact Nat.lt_of_le_of_lt (Path.utf8ByteSize_ofNames_le k names below) hshort
  · simp [hdirNode]

end Finding

end TsProject.World

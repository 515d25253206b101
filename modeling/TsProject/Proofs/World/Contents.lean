import TsProject.Proofs.World.Written
import TsProject.Selection.Walk

/-!
# Other contents

`World.refill` is the same tree with other bytes in its files. What a file holds matters to no
way through the tree: a path leads to the same location (`find_refill`), to a node of the same
kind (`isFile_refill`, `isDir_refill`), and has the same files below it (`walk_refill`). So that
reading is the one operation that can tell the two trees apart, and it does so by the bytes of
the file that is read: `readBytes_refill`.
-/

namespace TsProject

/-- The node with other contents, where it is a file. -/
def Node.refill (f : List UInt8 → List UInt8) : Node → Node
  | .file bytes executable => .file (f bytes) executable
  | node => node

namespace World

/-- **The same tree with other contents**: `f` says what the file at a location holds in place of
its bytes. -/
def refill (w : World) (f : Location → List UInt8 → List UInt8) : World :=
  { w with nodes := w.nodes.map fun entry => (entry.1, entry.2.refill (f entry.1)) }

/-- The spot in the same tree with other contents. -/
def Spot.refill (spot : Spot) (f : Location → List UInt8 → List UInt8) : Spot :=
  { spot with node := spot.node.map (Node.refill (f spot.location)) }

variable {w : World} {f : Location → List UInt8 → List UInt8}

/-! ### The tree -/

theorem lookup_map_refill (loc : Location) (nodes : List (Location × Node)) :
    (nodes.map fun entry => (entry.1, entry.2.refill (f entry.1))).lookup loc =
      (nodes.lookup loc).map (Node.refill (f loc)) := by
  induction nodes with
  | nil => rfl
  | cons entry nodes ih =>
    obtain ⟨here, node⟩ := entry
    rw [List.map_cons, List.lookup_cons, List.lookup_cons, ih]
    by_cases hhere : loc = here
    · subst hhere
      simp
    · simp [beq_eq_false_iff_ne.mpr hhere]

@[simp] theorem nodeAt_refill (loc : Location) :
    (w.refill f).nodeAt loc = (w.nodeAt loc).map (Node.refill (f loc)) := by
  rw [nodeAt, nodeAt]
  split_ifs
  · rfl
  · exact lookup_map_refill loc w.nodes

@[simp] theorem entries_refill (loc : Location) : (w.refill f).entries loc = w.entries loc := by
  rw [entries, entries, refill, List.filterMap_map]
  rfl

@[simp] theorem depth_refill : (w.refill f).depth = w.depth := by
  rw [depth, depth, refill, List.foldl_map]

@[simp] theorem walkLevels_refill : (w.refill f).walkLevels = w.walkLevels := by
  rw [walkLevels, walkLevels, depth_refill]

@[simp] theorem location_refill (spot : Spot) : (spot.refill f).location = spot.location := rfl

@[simp] theorem links_refill (spot : Spot) : (spot.refill f).links = spot.links := rfl

@[simp] theorem refill_eq_dir_iff {node : Node} {g : List UInt8 → List UInt8} :
    node.refill g = .dir ↔ node = .dir := by
  cases node <;> simp [Node.refill]

theorem isFileNode_refill (node : Node) (g : List UInt8 → List UInt8) :
    isFileNode (node.refill g) = isFileNode node := by
  cases node <;> rfl

theorem isDirNode_refill (node : Node) (g : List UInt8 → List UInt8) :
    isDirNode (node.refill g) = isDirNode node := by
  cases node <;> rfl

theorem any_refill {kind : Node → Bool} (hkind : ∀ node g, kind (node.refill g) = kind node)
    (spot : Spot) : (spot.refill f).node.any kind = spot.node.any kind := by
  obtain ⟨location, links, node⟩ := spot
  cases node with
  | none => rfl
  | some node => exact hkind node _

/-! ### Ways -/

theorem leadWith_refill {jump jump' : Spot → String → Except OsCause Spot}
    (hjump : ∀ spot target, jump' (spot.refill f) target = (jump spot target).map (·.refill f))
    (follow : Bool) (spot : Spot) (names : List String) :
    (w.refill f).leadWith jump' follow (spot.refill f) names =
      (w.leadWith jump follow spot names).map (·.refill f) := by
  induction names generalizing spot with
  | nil => rfl
  | cons name names ih =>
    obtain ⟨location, links, node⟩ := spot
    rw [leadWith, leadWith]
    cases node with
    | none => rfl
    | some node =>
      cases node with
      | file bytes executable => rfl
      | link target => rfl
      | dir =>
        simp only [Spot.refill, Option.map_some, Node.refill, nodeAt_refill]
        by_cases hlong : maxNameBytes < name.utf8ByteSize
        · rw [if_pos hlong, if_pos hlong]
          rfl
        rw [if_neg hlong, if_neg hlong]
        by_cases hidle : (name = "" || name = ".") = true
        · rw [if_pos hidle, if_pos hidle]
          exact ih ⟨location, links, some .dir⟩
        rw [if_neg hidle, if_neg hidle]
        by_cases hup : name = ".."
        · rw [if_pos hup, if_pos hup]
          exact ih ⟨location.dropLast, links, some .dir⟩
        rw [if_neg hup, if_neg hup]
        cases w.nodeAt (location ++ [name]) with
        | none => exact ih ⟨location ++ [name], links, none⟩
        | some next =>
          cases next with
          | dir => exact ih ⟨location ++ [name], links, some .dir⟩
          | file bytes executable =>
            exact ih ⟨location ++ [name], links, some (.file bytes executable)⟩
          | link target =>
            -- a link that is followed leads to a spot of the same tree
            have hnext : jump' ⟨location, links, some .dir⟩ target =
                (jump ⟨location, links, some .dir⟩ target).map (·.refill f) :=
              hjump ⟨location, links, some .dir⟩ target
            simp only [Option.map_some, Node.refill, hnext]
            split_ifs
            · rfl
            · cases jump ⟨location, links, some .dir⟩ target with
              | error cause => rfl
              | ok spot => exact ih spot

theorem jump_refill (n : Nat) (spot : Spot) (target : String) :
    (w.refill f).jump n (spot.refill f) target = (w.jump n spot target).map (·.refill f) := by
  induction n generalizing spot target with
  | zero => rfl
  | succ n ih =>
    rw [jump, jump, links_refill, location_refill]
    split_ifs
    · rfl
    · exact leadWith_refill ih true ⟨origin target spot.location, spot.links - 1, some .dir⟩ _

/-- **A path leads to the same spot.** -/
theorem find_refill (follow : Bool) (path : String) :
    (w.refill f).find follow path = (w.find follow path).map (·.refill f) := by
  have hlead : (w.refill f).lead follow path = (w.lead follow path).map (·.refill f) := by
    rw [lead, lead]
    split_ifs
    · rfl
    · rfl
    · exact leadWith_refill (jump_refill maxLinks) follow ⟨origin path w.cwd, maxLinks, some .dir⟩ _
  rw [find, find, hlead]
  split_ifs
  · rfl
  · cases w.lead follow path <;> rfl

theorem existing_refill (path : String) :
    (w.refill f).existing path = (w.existing path).map (·.refill f) := by
  rw [existing, existing, find_refill]
  cases w.find true path with
  | error e => rfl
  | ok spot =>
    obtain ⟨location, links, node⟩ := spot
    cases node <;> rfl

/-! ### Questions -/

theorem ask_refill {kind : Node → Bool} (hkind : ∀ node g, kind (node.refill g) = kind node)
    (path : String) : (w.refill f).ask kind path = w.ask kind path := by
  rw [ask, ask, existing_refill]
  cases w.existing path with
  | error e => rfl
  | ok spot => exact congrArg Except.ok (any_refill hkind spot)

@[simp] theorem isFile_refill (path : String) : (w.refill f).isFile path = w.isFile path :=
  ask_refill isFileNode_refill path

@[simp] theorem isDir_refill (path : String) : (w.refill f).isDir path = w.isDir path :=
  ask_refill isDirNode_refill path

/-- **Reading** is refused in both trees, or gives the bytes of one file of each. -/
theorem readBytes_refill (path : String) :
    (∃ e, w.readBytes path = .error e ∧ (w.refill f).readBytes path = .error e) ∨
      ∃ loc bytes executable, w.nodeAt loc = some (.file bytes executable) ∧
        w.readBytes path = .ok bytes ∧ (w.refill f).readBytes path = .ok (f loc bytes) := by
  rw [readBytes, readBytes, existing_refill]
  cases hfound : w.existing path with
  | error e => exact .inl ⟨e, rfl, rfl⟩
  | ok spot =>
    obtain ⟨hfind, hsome⟩ := existing_iff.mp hfound
    have hsettled := isSettled_of_find hfind
    obtain ⟨location, links, node⟩ := spot
    cases node with
    | none => cases hsome
    | some node =>
      cases node with
      | dir => exact .inl ⟨_, rfl, rfl⟩
      | link target => exact .inl ⟨_, rfl, rfl⟩
      | file bytes executable =>
        obtain ⟨hnode, -⟩ := hsettled (by simp)
        exact .inr ⟨location, bytes, executable, hnode.symm, rfl, rfl⟩

/-! ### Walks -/

/-- The entry in the same tree with other contents. -/
def Entry.refill (e : Entry) (f : Location → List UInt8 → List UInt8) : Entry :=
  { e with spot := e.spot.refill f }

theorem entrySpot_refill (dir : Spot) (name path : String) :
    (w.refill f).entrySpot (dir.refill f) name path =
      (w.entrySpot dir name path).map (·.refill f) := by
  rw [entrySpot, entrySpot, nodeAt_refill, location_refill]
  cases w.nodeAt (dir.location ++ [name]) with
  | none => rfl
  | some node =>
    cases node with
    | dir => rfl
    | file bytes executable => rfl
    | link target =>
      simp only [Option.map_some, Node.refill, jump_refill]
      split_ifs
      · rfl
      · cases w.jump maxLinks dir target with
        | error cause => rfl
        | ok spot =>
          obtain ⟨location, links, node⟩ := spot
          cases node <;> rfl

theorem listing_refill (dir : Spot) (path : String) :
    (w.refill f).listing (dir.refill f) path = (w.listing dir path).map (·.refill f) := by
  rw [listing, listing, location_refill, entries_refill]
  split_ifs
  · rfl
  · rw [List.map_filterMap]
    congr 1
    funext name
    dsimp only
    rw [entrySpot_refill, Option.map_map, Option.map_map]
    rfl

theorem walkFrom_refill (fuel : Nat) (dir : Spot) (path : String) :
    (w.refill f).walkFrom fuel (dir.refill f) path = w.walkFrom fuel dir path := by
  induction fuel generalizing dir path with
  | zero => rfl
  | succ fuel ih =>
    have hspot : ∀ e : Entry, (e.refill f).spot = e.spot.refill f := fun _ => rfl
    have hname : ∀ e : Entry, (e.refill f).name = e.name := fun _ => rfl
    have hpath : ∀ e : Entry, (e.refill f).path = e.path := fun _ => rfl
    rw [walkFrom, walkFrom, listing_refill]
    simp only [List.filter_map, List.map_map, List.flatMap_map, Function.comp_def, hname, hpath,
      hspot, ih, any_refill isFileNode_refill, any_refill isDirNode_refill]

/-- **The same files** are below a directory. -/
@[simp] theorem walk_refill (path : String) : (w.refill f).walk path = w.walk path := by
  rw [walk, walk, existing_refill, walkLevels_refill]
  cases w.existing path with
  | error e => rfl
  | ok spot =>
    have hdir : (spot.refill f).node = some .dir ↔ spot.node = some .dir := by
      simp [Spot.refill]
    simp only [Except.map, hdir, walkFrom_refill]

end World

end TsProject

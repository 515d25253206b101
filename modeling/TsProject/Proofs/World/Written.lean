import TsProject.Proofs.World.Lookup

/-!
# Writing a file and removing it again

Ways through a tree depend on its directories and links only (`leadWith_of_sameWays`), and writing
changes none of them. A path is looked up by its last name in the directory that the others lead
to: what stands there is what is removed (`HasEntry.find_false`), whereas what is written is what
a link there leads to. So that a file that has been written can be removed again, whatever stood
under its name (`exists_unlink_of_write`), and where nothing did, the tree is afterwards what it
was before: `unlink_of_write`. None of this needs the file to be complete: a file of which writing
was broken off is a file as well.
-/

namespace TsProject.World

/-! ### One node changed -/

theorem lookup_map_replace {loc : Location} {node : Node} (other : Location)
    (nodes : List (Location × Node)) :
    (nodes.map fun entry => if entry.1 = loc then (loc, node) else entry).lookup other =
      if other = loc then (nodes.lookup loc).map fun _ => node else nodes.lookup other := by
  induction nodes with
  | nil => simp
  | cons entry nodes ih =>
    obtain ⟨here, old⟩ := entry
    rw [List.map_cons]
    by_cases hhere : here = loc
    · subst hhere
      by_cases hother : other = here
      · simp [hother]
      · simp [hother, List.lookup_cons, beq_eq_false_iff_ne.mpr hother, ih]
    · rw [if_neg (by exact hhere), List.lookup_cons, ih, List.lookup_cons, List.lookup_cons]
      by_cases hother : other = here
      · subst hother
        simp [hhere]
      · simp [beq_eq_false_iff_ne.mpr hother, beq_eq_false_iff_ne.mpr (Ne.symm hhere)]

/-- **The node that has been put** is found where it was put, and all others where they were. -/
theorem nodeAt_put (w : World) {loc : Location} (hloc : loc ≠ []) (node : Node)
    (other : Location) :
    (w.put loc node).nodeAt other = if other = loc then some node else w.nodeAt other := by
  by_cases hroot : other = []
  · subst hroot
    rw [nodeAt, if_pos rfl, if_neg (Ne.symm hloc), nodeAt, if_pos rfl]
  · rw [nodeAt, if_neg hroot, put, nodeAt, if_neg hroot]
    split_ifs with hsome hother hother
    · rw [lookup_map_replace, if_pos hother]
      obtain ⟨old, hold⟩ := Option.isSome_iff_exists.mp hsome
      rw [hold, Option.map_some]
    · rw [lookup_map_replace, if_neg hother]
    · have hnone : w.nodes.lookup loc = none := Option.not_isSome_iff_eq_none.mp hsome
      simp [List.lookup_append, hnone, hother]
    · rw [List.lookup_append]
      simp [List.lookup_cons, beq_eq_false_iff_ne.mpr hother]

/-- Where there was nothing, what has been put can be taken away again. -/
theorem drop_put {w : World} {loc : Location} (hloc : loc ≠ []) (hnone : w.nodeAt loc = none)
    (node : Node) : (w.put loc node).drop loc = w := by
  rw [nodeAt, if_neg hloc] at hnone
  have hkeep : w.nodes.filter (fun entry => decide (entry.1 ≠ loc)) = w.nodes := by
    rw [List.filter_eq_self]
    rintro ⟨here, old⟩ hmem
    have hne : loc ≠ here := bne_iff_ne.mp (List.lookup_eq_none_iff.mp hnone (here, old) hmem)
    simpa using hne.symm
  have hput : w.put loc node = { w with nodes := w.nodes ++ [(loc, node)] } :=
    if_neg (by rw [hnone]; exact Bool.false_ne_true)
  rw [hput, drop, List.filter_append, hkeep]
  simp

/-! ### Ways through the tree -/

/-- **The same ways**: two worlds have the same directories and links. -/
def SameWays (w w' : World) : Prop :=
  ∀ loc node, isFileNode node = false → (w.nodeAt loc = some node ↔ w'.nodeAt loc = some node)

/-- A file put where there is a file or nothing is in no one's way. -/
theorem sameWays_put {w : World} {loc : Location} (hloc : loc ≠ [])
    (hold : ∀ node, w.nodeAt loc = some node → isFileNode node) {node : Node}
    (hnode : isFileNode node) : w.SameWays (w.put loc node) := by
  intro other kept hkept
  rw [nodeAt_put w hloc]
  split_ifs with hother
  · subst hother
    refine iff_of_false (fun hfound => ?_) ?_
    · simp [hold kept hfound] at hkept
    · rintro heq
      rw [Option.some.inj heq, hkept] at hnode
      cases hnode
  · rfl

section Ways

variable {w w' : World} {jump jump' : Spot → String → Except OsCause Spot}

/-- A step to a directory is one in every world with the same ways. -/
theorem Step.of_sameWays (hways : w.SameWays w')
    (hjump : ∀ {spot target next}, jump spot target = .ok next → next.node = some .dir →
      jump' spot target = .ok next) {spot next : Spot} {name : String}
    (h : Step w jump spot name next) (hnext : next.node = some .dir) :
    Step w' jump' spot name next := by
  cases h with
  | stay hname => exact .stay hname
  | up => exact .up
  | @down loc links _ hname hlink =>
    have hnode : w.nodeAt (loc ++ [name]) = w'.nodeAt (loc ++ [name]) :=
      hnext.trans ((hways _ _ rfl).mp hnext).symm
    rw [hnode] at hlink ⊢
    exact .down hname hlink
  | follow hname htarget hfollow =>
    exact .follow hname ((hways _ _ rfl).mp htarget) (hjump hfollow hnext)

theorem leadWith_of_jump (hways : w.SameWays w')
    (hjump : ∀ {spot target next}, jump spot target = .ok next → next.node = some .dir →
      jump' spot target = .ok next) {spot result : Spot} {names : List String}
    (h : leadWith w jump true spot names = .ok result) (hresult : result.node = some .dir) :
    leadWith w' jump' true spot names = .ok result := by
  induction names generalizing spot with
  | nil => exact h
  | cons name names ih =>
    obtain ⟨next, hstep, hrest⟩ := leadWith_cons_iff.mp h
    have hnext := node_eq_of_leadWith hrest hresult
    exact leadWith_cons_iff.mpr ⟨next, hstep.of_sameWays hways hjump hnext, ih hrest⟩

theorem jump_of_sameWays (hways : w.SameWays w') {n : Nat} {spot next : Spot} {target : String}
    (h : w.jump n spot target = .ok next) (hnext : next.node = some .dir) :
    w'.jump n spot target = .ok next := by
  induction n generalizing spot target next with
  | zero => cases h
  | succ n ih =>
    rw [World.jump] at h ⊢
    split_ifs at h ⊢
    exact leadWith_of_jump hways ih h hnext

/-- **Ways to a directory** are the same in worlds with the same ways. -/
theorem leadWith_of_sameWays (hways : w.SameWays w') {n : Nat} {spot result : Spot}
    {names : List String} (h : leadWith w (w.jump n) true spot names = .ok result)
    (hresult : result.node = some .dir) :
    leadWith w' (w'.jump n) true spot names = .ok result :=
  leadWith_of_jump hways (jump_of_sameWays hways) h hresult

/-- **The last name of a way** is the only one that may not be followed. -/
theorem leadWith_concat (follow : Bool) (spot : Spot) (names : List String) (last : String) :
    leadWith w jump follow spot (names ++ [last]) =
      leadWith w jump true spot names >>= fun dir => leadWith w jump follow dir [last] := by
  induction names generalizing spot with
  | nil => rfl
  | cons name names ih =>
    have hrest : ¬(names ++ [last] = []) := by simp
    rw [List.cons_append, leadWith, leadWith]
    simp only [hrest, decide_false, Bool.false_and, Bool.not_true, Bool.and_false,
      Bool.false_eq_true, if_false]
    split
    · rfl
    · split_ifs
      · rfl
      · exact ih _
      · exact ih _
      · split
        · rw [bind_assoc]
          exact bind_congr fun next => ih next
        · exact ih _
    · rfl

end Ways

/-- **What a way ends at**: a directory, or else what stands at the location, which is no link. -/
def Spot.IsSettled (w : World) (spot : Spot) : Prop :=
  spot.node ≠ some .dir → spot.node = w.nodeAt spot.location ∧
    ∀ node, spot.node = some node → isFileNode node

theorem isSettled_of_leadWith {w : World} {jump : Spot → String → Except OsCause Spot}
    (hjump : ∀ {spot target next}, jump spot target = .ok next → next.IsSettled w)
    {spot result : Spot} {names : List String}
    (h : leadWith w jump true spot names = .ok result) (hspot : spot.IsSettled w) :
    result.IsSettled w := by
  refine leadWith_induction (p := Spot.IsSettled w) ?_ h hspot
  intro spot name next hstep _
  cases hstep with
  | stay | up => exact fun hnot => absurd rfl hnot
  | down _ hlink =>
    refine fun hnot => ⟨rfl, fun node hnode => ?_⟩
    cases node with
    | dir => exact absurd hnode hnot
    | link target => exact absurd hnode (hlink target)
    | file => rfl
  | follow _ _ hfollow => exact hjump hfollow

theorem isSettled_of_jump {w : World} {n : Nat} {spot next : Spot} {target : String}
    (h : w.jump n spot target = .ok next) : next.IsSettled w := by
  induction n generalizing spot target next with
  | zero => cases h
  | succ n ih =>
    rw [jump] at h
    split_ifs at h
    exact isSettled_of_leadWith ih h fun hnot => absurd rfl hnot

/-- **Links are followed to the end.** -/
theorem isSettled_of_find {w : World} {path : String} {spot : Spot}
    (h : w.find true path = .ok spot) : spot.IsSettled w := by
  obtain ⟨-, -, -, hlead⟩ := find_eq_ok_iff.mp h
  exact isSettled_of_leadWith isSettled_of_jump hlead fun hnot => absurd rfl hnot

/-! ### The last name of a path -/

/-- **The entry of a path**: the directory that its other names lead to, and the last one. -/
structure HasEntry (w : World) (path : String) (loc : Location) (links : Nat) (last : String) :
    Prop where
  noNull : '\x00' ∉ path.toList
  ne_empty : path ≠ ""
  short : path.utf8ByteSize < pathLimit
  way : ∃ before, names path = before ++ [last] ∧
    leadWith w (w.jump maxLinks) true (w.start path) before = .ok ⟨loc, links, some .dir⟩
  name : IsEntryName last

section Entry

variable {w w' : World} {path last : String} {loc : Location} {links : Nat} {spot : Spot}

/-- A path is looked up by its last name. -/
theorem HasEntry.find_eq_ok_iff (h : HasEntry w path loc links last) {follow : Bool} :
    w.find follow path = .ok spot ↔
      leadWith w (w.jump maxLinks) follow ⟨loc, links, some .dir⟩ [last] = .ok spot := by
  obtain ⟨before, hnames, hway⟩ := h.way
  rw [World.find_eq_ok_iff, hnames, leadWith_concat, hway]
  simp [h.noNull, h.ne_empty, h.short, bind, Except.bind]

/-- **What stands under a path**, a link not being followed. -/
theorem HasEntry.find_false (h : HasEntry w path loc links last) :
    w.find false path = .ok ⟨loc ++ [last], links, w.nodeAt (loc ++ [last])⟩ := by
  rw [h.find_eq_ok_iff, leadWith]
  simp only [h.name.ne_empty, h.name.ne_dot, h.name.ne_up, Nat.not_lt.mpr h.name.short, if_false,
    decide_false, Bool.or_self, Bool.false_eq_true, decide_true, Bool.not_false, Bool.and_self,
    if_true]
  split
  · rename_i htarget
    rw [htarget]
  · rfl

/-- Where no link stands under a path, it leads nowhere else. -/
theorem HasEntry.find_true (h : HasEntry w path loc links last)
    (hlink : ∀ target, w.nodeAt (loc ++ [last]) ≠ some (.link target)) :
    w.find true path = .ok ⟨loc ++ [last], links, w.nodeAt (loc ++ [last])⟩ := by
  rw [h.find_eq_ok_iff, leadWith_cons_of_step (.down h.name hlink), leadWith]

theorem HasEntry.of_sameWays (h : HasEntry w path loc links last) (hways : w.SameWays w')
    (hcwd : w'.cwd = w.cwd) : HasEntry w' path loc links last where
  noNull := h.noNull
  ne_empty := h.ne_empty
  short := h.short
  way := by
    obtain ⟨before, hnames, hway⟩ := h.way
    refine ⟨before, hnames, ?_⟩
    rw [start, hcwd]
    exact leadWith_of_sameWays hways hway rfl
  name := h.name

/-- **A path that leads to anything but a directory** has an entry. -/
theorem exists_hasEntry_of_find {follow : Bool} (h : w.find follow path = .ok spot)
    (hspot : spot.node ≠ some .dir) : ∃ loc links last, HasEntry w path loc links last := by
  obtain ⟨hnull, hempty, hshort, hlead⟩ := find_eq_ok_iff.mp h
  obtain ⟨before, last, hnames⟩ : ∃ before last, names path = before ++ [last] := by
    have hne : names path ≠ [] := by simp [names, Text.splitOn, Text.splitOnChar_ne_nil]
    obtain ⟨before, last, hnames⟩ := (List.eq_nil_or_concat _).resolve_left hne
    exact ⟨before, last, by rw [hnames, List.concat_eq_append]⟩
  rw [hnames, leadWith_concat] at hlead
  obtain ⟨⟨loc, links, node⟩, hway, hlast⟩ := bind_ok_iff.mp hlead
  rw [leadWith] at hlast
  split at hlast
  · cases hlast
  · rename_i hnode
    dsimp only at hnode
    subst hnode
    split_ifs at hlast with hlong hidle hup hfollow
    · exact absurd (congrArg Spot.node (Except.ok.inj hlast)).symm hspot
    · exact absurd (congrArg Spot.node (Except.ok.inj hlast)).symm hspot
    all_goals
      simp only [Bool.or_eq_true, decide_eq_true_eq, not_or] at hidle
      exact ⟨loc, links, last, hnull, hempty, hshort, ⟨before, hnames, hway⟩,
        hidle.1, hidle.2, hup, Nat.not_lt.mp hlong⟩
  · cases hlast

end Entry

/-! ### Writing -/

section Write

variable {w w' : World} {path : String} {bytes : List UInt8} {stop? : Option WriteStop}
  {cause? : Option OsCause}

/-- Where writing is not broken off, all bytes get into the file. -/
theorem exists_fill_of_write (h : w.write stop? path bytes = .ok (w', cause?)) :
    ∃ kept, w.fill path kept = .ok w' ∧ (cause? = none → kept = bytes) := by
  obtain ⟨left, hfill, h⟩ := bind_ok_iff.mp h
  obtain ⟨rfl, rfl⟩ := Prod.mk.inj (Except.ok.inj h)
  refine ⟨_, hfill, fun hnone => ?_⟩
  rw [Option.map_eq_none_iff.mp hnone, keptBytes]

theorem fill_of_write_eq_error {e : AccessError} (h : w.write stop? path bytes = .error e) :
    w.fill path (keptBytes stop? bytes) = .error e := by
  rw [write] at h
  cases hfill : w.fill path (keptBytes stop? bytes) with
  | error refusal =>
    rw [hfill] at h
    exact congrArg Except.error (Except.error.inj h)
  | ok left =>
    rw [hfill] at h
    cases h

/-- **What has been written** is at the spot that the path leads to. -/
theorem exists_spot_of_write (h : w.write stop? path bytes = .ok (w', cause?)) :
    ∃ spot, w.find true path = .ok spot ∧ spot.node ≠ some .dir ∧ spot.location ≠ [] ∧
      (∀ node, w.nodeAt spot.location = some node → isFileNode node) ∧
        ∃ kept executable, w' = w.put spot.location (.file kept executable) ∧
          (cause? = none → kept = bytes) := by
  obtain ⟨kept, hfill, hkept⟩ := exists_fill_of_write h
  obtain ⟨spot, hfind, hfill⟩ := bind_ok_iff.mp hfill
  have hwritten : spot.node ≠ some .dir ∧
      ∃ executable, w' = w.put spot.location (.file kept executable) := by
    split at hfill
    · cases hfill
    · rename_i hnode
      exact ⟨by simp [hnode], _, (Except.ok.inj hfill).symm⟩
    · rename_i hdir _
      exact ⟨hdir, _, (Except.ok.inj hfill).symm⟩
  obtain ⟨hdir, executable, hput⟩ := hwritten
  obtain ⟨hnode, hfile⟩ := isSettled_of_find hfind hdir
  refine ⟨spot, hfind, hdir, ?_, ?_, kept, executable, hput, hkept⟩
  · intro hroot
    rw [hroot, nodeAt, if_pos rfl] at hnode
    exact hdir hnode
  · rwa [← hnode]

/-- **Writing changes no ways**, and not the working directory. -/
theorem sameWays_of_write (h : w.write stop? path bytes = .ok (w', cause?)) :
    w.SameWays w' ∧ w'.cwd = w.cwd := by
  obtain ⟨spot, -, -, hloc, hold, kept, executable, rfl, -⟩ := exists_spot_of_write h
  refine ⟨sameWays_put hloc hold rfl, ?_⟩
  rw [put]
  split_ifs <;> rfl

theorem exists_unlink_of_find {spot : Spot} (h : w.find false path = .ok spot)
    (hspot : spot.node ≠ some .dir) : ∃ cleared, w.unlink path = .ok cleared := by
  rw [unlink, h]
  dsimp only
  split
  · exact ⟨_, rfl⟩
  · rename_i hdir
    exact absurd hdir hspot
  · exact ⟨_, rfl⟩

/-- **What can be written can be removed**, before it is written and afterwards. -/
theorem exists_unlink_of_write (h : w.write stop? path bytes = .ok (w', cause?)) :
    (∃ cleared, w.unlink path = .ok cleared) ∧ ∃ cleared, w'.unlink path = .ok cleared := by
  obtain ⟨spot, hfind, hdir, -, -, -⟩ := exists_spot_of_write h
  obtain ⟨hways, hcwd⟩ := sameWays_of_write h
  obtain ⟨loc, links, last, hentry⟩ := exists_hasEntry_of_find hfind hdir
  have hnode : w.nodeAt (loc ++ [last]) ≠ some .dir := by
    intro hnode
    rw [hentry.find_true (by simp [hnode])] at hfind
    exact hdir ((congrArg Spot.node (Except.ok.inj hfind)).symm.trans hnode)
  exact ⟨exists_unlink_of_find hentry.find_false hnode,
    exists_unlink_of_find (hentry.of_sameWays hways hcwd).find_false
      fun hnode' => hnode ((hways _ _ rfl).mpr hnode')⟩

/-- A path that cannot be written because of a null character cannot be removed either. -/
theorem unlink_of_write_eq_embeddedNull
    (h : w.write stop? path bytes = .error .embeddedNull) :
    w.unlink path = .error .embeddedNull := by
  by_cases hnull : path.toList.contains '\x00'
  · rw [unlink, find, if_pos hnull]
  · have hfill := fill_of_write_eq_error h
    rw [fill, find, if_neg hnull] at hfill
    cases hlead : w.lead true path with
    | error cause => simp [hlead, Except.mapError, bind, Except.bind] at hfill
    | ok spot =>
      simp only [hlead, Except.mapError, bind, Except.bind] at hfill
      split at hfill <;> cases hfill

/-- **An unused name**: nothing stands under the path, not even a link. -/
def IsUnused (w : World) (path : String) : Prop :=
  ∀ spot, w.find false path = .ok spot → spot.node = none

/-- Where nothing stands under a path, there is nothing to remove. -/
theorem unlink_of_isUnused (hunused : w.IsUnused path) {cleared : World}
    (h : w.unlink path = .ok cleared) : cleared = w := by
  rw [unlink] at h
  split at h
  · exact (Except.ok.inj h).symm
  · cases h
  · rename_i spot hfind
    rw [hunused spot hfind] at h
    exact (Except.ok.inj h).symm

/-- **A new file** holds what has been written, unless writing was broken off, and when it is
removed the world is what it was before. -/
theorem unlink_of_write (hunused : w.IsUnused path)
    (h : w.write stop? path bytes = .ok (w', cause?)) :
    (cause? = none → w'.readBytes path = .ok bytes) ∧ w'.unlink path = .ok w := by
  obtain ⟨spot, hfind, hdir, hloc, -, kept, executable, rfl, hkept⟩ := exists_spot_of_write h
  obtain ⟨hways, hcwd⟩ := sameWays_of_write h
  obtain ⟨loc, links, last, hentry⟩ := exists_hasEntry_of_find hfind hdir
  have hnone : w.nodeAt (loc ++ [last]) = none := hunused _ hentry.find_false
  rw [hentry.find_true (by simp [hnone])] at hfind
  obtain rfl := Except.ok.inj hfind
  dsimp only at *
  have hentry' := hentry.of_sameWays hways hcwd
  have hfile : (w.put (loc ++ [last]) (.file kept executable)).nodeAt (loc ++ [last]) =
      some (.file kept executable) := by rw [nodeAt_put w hloc, if_pos rfl]
  constructor
  · intro hcause
    obtain rfl := hkept hcause
    have hfound := hentry'.find_true (by simp [hfile])
    rw [hfile] at hfound
    rw [readBytes, existing_iff.mpr ⟨hfound, rfl⟩]
    rfl
  · have hfound := hentry'.find_false
    rw [hfile] at hfound
    rw [unlink, hfound]
    exact congrArg Except.ok (drop_put hloc hnone _)

end Write

end TsProject.World

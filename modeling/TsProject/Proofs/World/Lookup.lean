import Mathlib.Tactic.SplitIfs
import TsProject.World.Access

/-!
# Ways through the tree, one name at a time

`Step` says where one name leads from a directory: nowhere else for an empty name or `.`, to the
parent for `..`, to the node of that name otherwise, and through it where it is a link.
`leadWith_cons_iff` takes the first step of a way that follows links to its end, and
`leadWith_append_iff` cuts such a way in two; `existing_iff` says which paths lead to a node. What
holds of every step is then carried along ways by induction on their names.
-/

namespace TsProject

section Except

variable {ε ε' α β : Type} {x : Except ε α}

/-- The results of two steps. -/
theorem bind_ok_iff {f : α → Except ε β} {b : β} :
    x >>= f = .ok b ↔ ∃ a, x = .ok a ∧ f a = .ok b := by
  cases x <;> simp [bind, Except.bind]

/-- Two ways to go on that agree on the result of the first step. -/
theorem bind_congr_of_ok {f g : α → Except ε β} (h : ∀ a, x = .ok a → f a = g a) :
    x >>= f = x >>= g := by
  cases x with
  | error e => rfl
  | ok a => exact h a rfl

theorem mapError_ok_iff {f : ε → ε'} {a : α} : x.mapError f = .ok a ↔ x = .ok a := by
  cases x <;> simp [Except.mapError]

/-- A result that passes a check. -/
theorem exists_ok_of_any {check : α → Bool} (h : x.toOption.any check) :
    ∃ a, x = .ok a ∧ check a := by
  cases x with
  | error e => cases h
  | ok a => exact ⟨a, rfl, h⟩

end Except

namespace World

/-- A name that the system looks up in a directory. -/
structure IsEntryName (name : String) : Prop where
  ne_empty : name ≠ ""
  ne_dot : name ≠ "."
  ne_up : name ≠ ".."
  short : name.utf8ByteSize ≤ maxNameBytes

/-- **One step**: where a name leads from a directory. -/
inductive Step (w : World) (jump : Spot → String → Except OsCause Spot) :
    Spot → String → Spot → Prop
  | stay {loc : Location} {links : Nat} {name : String} : name = "" ∨ name = "." →
    Step w jump ⟨loc, links, some .dir⟩ name ⟨loc, links, some .dir⟩
  | up {loc : Location} {links : Nat} :
    Step w jump ⟨loc, links, some .dir⟩ ".." ⟨loc.dropLast, links, some .dir⟩
  | down {loc : Location} {links : Nat} {name : String} : IsEntryName name →
    (∀ target, w.nodeAt (loc ++ [name]) ≠ some (.link target)) →
      Step w jump ⟨loc, links, some .dir⟩ name ⟨loc ++ [name], links, w.nodeAt (loc ++ [name])⟩
  | follow {loc : Location} {links : Nat} {name target : String} {next : Spot} :
    IsEntryName name → w.nodeAt (loc ++ [name]) = some (.link target) →
      jump ⟨loc, links, some .dir⟩ target = .ok next →
        Step w jump ⟨loc, links, some .dir⟩ name next

section Lead

variable {w : World} {jump : Spot → String → Except OsCause Spot} {spot result : Spot}
variable {name : String} {rest : List String}

theorem Step.node_eq {next : Spot} (h : Step w jump spot name next) : spot.node = some .dir := by
  cases h <;> rfl

/-- A first name leads on from where its step ends. -/
theorem leadWith_cons_of_step {next : Spot} (h : Step w jump spot name next) :
    leadWith w jump true spot (name :: rest) = leadWith w jump true next rest := by
  cases h with
  | stay hname => rcases hname with rfl | rfl <;> rfl
  | up => rfl
  | down hname hlink =>
    rw [leadWith]
    simp only [hname.ne_empty, hname.ne_dot, hname.ne_up, Nat.not_lt.mpr hname.short, if_false,
      decide_false, Bool.or_self, Bool.false_eq_true]
  | follow hname htarget hjump =>
    rw [leadWith]
    simp [hname.ne_empty, hname.ne_dot, hname.ne_up, Nat.not_lt.mpr hname.short, htarget, hjump,
      bind, Except.bind]

/-- A way that leads somewhere begins with a step. -/
theorem exists_step_of_leadWith_cons (h : leadWith w jump true spot (name :: rest) = .ok result) :
    ∃ next, Step w jump spot name next := by
  obtain ⟨loc, links, node⟩ := spot
  rw [leadWith] at h
  split at h
  · cases h
  · rename_i hnode
    dsimp only at hnode
    subst hnode
    -- in a directory, the ways of a step in the order in which a name is tested for them
    by_cases hlong : maxNameBytes < name.utf8ByteSize
    · simp [hlong] at h
    · by_cases hidle : name = "" ∨ name = "."
      · exact ⟨_, .stay hidle⟩
      · by_cases hup : name = ".."
        · subst hup
          exact ⟨_, .up⟩
        · obtain ⟨hempty, hdot⟩ := not_or.mp hidle
          have hname : IsEntryName name := ⟨hempty, hdot, hup, Nat.not_lt.mp hlong⟩
          by_cases hlink : ∃ target, w.nodeAt (loc ++ [name]) = some (.link target)
          · obtain ⟨target, htarget⟩ := hlink
            simp only [hlong, hempty, hdot, hup, htarget, if_false, decide_false, Bool.or_self,
              Bool.false_eq_true, Bool.not_true, Bool.and_false] at h
            obtain ⟨next, hnext, -⟩ := bind_ok_iff.mp h
            exact ⟨next, .follow hname htarget hnext⟩
          · exact ⟨_, .down hname fun target htarget => hlink ⟨target, htarget⟩⟩
  · cases h

/-- **The first step of a way.** -/
theorem leadWith_cons_iff : leadWith w jump true spot (name :: rest) = .ok result ↔
    ∃ next, Step w jump spot name next ∧ leadWith w jump true next rest = .ok result := by
  constructor
  · intro h
    obtain ⟨next, hstep⟩ := exists_step_of_leadWith_cons h
    exact ⟨next, hstep, by rwa [← leadWith_cons_of_step hstep]⟩
  · rintro ⟨next, hstep, h⟩
    rwa [leadWith_cons_of_step hstep]

theorem leadWith_nil_iff : leadWith w jump true spot [] = .ok result ↔ spot = result := by
  simp [leadWith]

/-- **A way in two parts.** -/
theorem leadWith_append_iff {first second : List String} :
    leadWith w jump true spot (first ++ second) = .ok result ↔
      ∃ middle, leadWith w jump true spot first = .ok middle ∧
        leadWith w jump true middle second = .ok result := by
  induction first generalizing spot with
  | nil => simp [leadWith_nil_iff]
  | cons name first ih =>
    simp only [List.cons_append, leadWith_cons_iff, ih]
    constructor
    · rintro ⟨next, hstep, middle, hfirst, hsecond⟩
      exact ⟨middle, ⟨next, hstep, hfirst⟩, hsecond⟩
    · rintro ⟨middle, ⟨next, hstep, hfirst⟩, hsecond⟩
      exact ⟨next, hstep, middle, hfirst, hsecond⟩

/-- A property that every step keeps is kept along a way. -/
theorem leadWith_induction {p : Spot → Prop} {names : List String}
    (hstep : ∀ {spot name next}, Step w jump spot name next → p spot → p next)
    (h : leadWith w jump true spot names = .ok result) (hspot : p spot) : p result := by
  induction names generalizing spot with
  | nil => rwa [← leadWith_nil_iff.mp h]
  | cons name names ih =>
    obtain ⟨next, hnext, h⟩ := leadWith_cons_iff.mp h
    exact ih h (hstep hnext hspot)

/-- A way to a directory starts at one. -/
theorem node_eq_of_leadWith {names : List String}
    (h : leadWith w jump true spot names = .ok result) (hresult : result.node = some .dir) :
    spot.node = some .dir := by
  cases names with
  | nil => rwa [leadWith_nil_iff.mp h]
  | cons name names =>
    obtain ⟨next, hstep, -⟩ := leadWith_cons_iff.mp h
    exact hstep.node_eq

/-- A way to a node starts at one. -/
theorem isSome_of_leadWith {names : List String}
    (h : leadWith w jump true spot names = .ok result) (hresult : result.node.isSome) :
    spot.node.isSome := by
  cases names with
  | nil => rwa [leadWith_nil_iff.mp h]
  | cons name names =>
    obtain ⟨next, hstep, -⟩ := leadWith_cons_iff.mp h
    simp [hstep.node_eq]

end Lead

/-! ### Links -/

/-- **Following a link** uses one up. -/
theorem links_lt_of_jump {w : World} {n : Nat} {spot result : Spot} {target : String}
    (h : jump w n spot target = .ok result) : result.links < spot.links := by
  induction n generalizing spot result target with
  | zero => cases h
  | succ n ih =>
    rw [jump] at h
    split_ifs at h with hnone
    have hle : result.links ≤ spot.links - 1 := by
      refine leadWith_induction (p := fun s => s.links ≤ spot.links - 1) ?_ h (Nat.le_refl _)
      intro s name next hstep hs
      cases hstep with
      | follow _ _ hjump => exact Nat.le_trans (Nat.le_of_lt (ih hjump)) hs
      | stay | up | down => exact hs
    omega

/-- No step gains links. -/
theorem Step.links_le {w : World} {n : Nat} {spot next : Spot} {name : String}
    (h : Step w (jump w n) spot name next) : next.links ≤ spot.links := by
  cases h with
  | follow _ _ hjump => exact Nat.le_of_lt (links_lt_of_jump hjump)
  | stay | up | down => exact Nat.le_refl _

/-! ### Paths -/

/-- Where the way of a path starts. -/
def start (w : World) (path : String) : Spot := ⟨origin path w.cwd, maxLinks, some .dir⟩

/-- The paths that lead to a spot. -/
theorem find_eq_ok_iff {w : World} {follow : Bool} {path : String} {spot : Spot} :
    w.find follow path = .ok spot ↔ '\x00' ∉ path.toList ∧ path ≠ "" ∧
      path.utf8ByteSize < pathLimit ∧
        leadWith w (jump w maxLinks) follow (w.start path) (names path) = .ok spot := by
  unfold find lead start
  by_cases hnull : '\x00' ∈ path.toList
  · simp [hnull]
  · by_cases hempty : path = ""
    · simp [hempty, Except.mapError]
    · by_cases hlong : pathLimit ≤ path.utf8ByteSize
      · simp [hnull, hempty, hlong, Nat.not_lt.mpr hlong, Except.mapError]
      · simp only [List.contains_iff_mem, hnull, hempty, hlong, if_false, Nat.not_le.mp hlong,
          not_false_eq_true, ne_eq, true_and]
        cases leadWith w (jump w maxLinks) follow ⟨origin path w.cwd, maxLinks, some .dir⟩
          (names path) <;> simp [Except.mapError]

/-- **The paths that lead to a node.** -/
theorem existing_iff {w : World} {path : String} {spot : Spot} :
    w.existing path = .ok spot ↔ w.find true path = .ok spot ∧ spot.node.isSome := by
  unfold existing
  rw [bind_ok_iff]
  constructor
  · rintro ⟨found, hfind, h⟩
    split_ifs at h with hnone
    obtain rfl := Except.ok.inj h
    exact ⟨hfind, by simpa [Option.isSome_iff_ne_none] using hnone⟩
  · rintro ⟨hfind, hnode⟩
    refine ⟨spot, hfind, if_neg ?_⟩
    simpa [Option.isSome_iff_ne_none] using hnode

theorem links_le_of_existing {w : World} {path : String} {spot : Spot}
    (h : w.existing path = .ok spot) : spot.links ≤ maxLinks := by
  obtain ⟨-, -, -, hlead⟩ := find_eq_ok_iff.mp (existing_iff.mp h).1
  exact leadWith_induction (p := fun s => s.links ≤ maxLinks)
    (fun hstep hs => Nat.le_trans hstep.links_le hs) hlead (Nat.le_refl _)

end World

end TsProject

import Mathlib.Data.List.Flatten
import Mathlib.Data.String.Basic
import TsProject.Proofs.World.Finding
import TsProject.Proofs.World.Written

/-!
# Paths that go up

The normal form of a path lets `..` take away the name in front of it, whereas the system goes to
the parent of the directory that this name leads to. The two are the same unless that name is a
link. `upFromLink` says of a path that somewhere in it `..` stands behind such a name; where this
is not so, the path and its normal form lead to the same spot (`existing_normalize`). The step
lemma `leadNames_push` does this for one component: the names on the stack lead where the
components so far have led.
-/

namespace TsProject

/-! ### What is left of the components -/

/-- A text of which another one leaves out characters has at least its bytes. -/
theorem utf8ByteSize_le_of_sublist {s t : String} (h : s.toList.Sublist t.toList) :
    s.utf8ByteSize ≤ t.utf8ByteSize := by
  rw [← String.ofList_toList (s := s), ← String.ofList_toList (s := t), String.utf8ByteSize_ofList,
    String.utf8ByteSize_ofList]
  exact String.utf8Len_le_of_sublist h

namespace Path

open Text (headed headed_cons)

/-- **The components of an absolute path**: an empty one for every slash of the root, and behind
them some that make up the text. -/
theorem exists_components {path : String} (h : isAbsolute path) :
    ∃ k components, components ≠ [] ∧ rootLength path.toList = k + 1 ∧
      parts path.toList = List.replicate (k + 1) [] ++ components ∧
      path.toList = List.replicate k '/' ++ headed '/' components := by
  have hheaded : ∀ cs : List Char, headed '/' (parts cs) = '/' :: cs := Text.headed_splitOnChar
  obtain ⟨rest, hrest⟩ := exists_cons_of_isAbsolute h
  rcases rootLength_of_isAbsolute h with hroot | hroot
  · refine ⟨0, parts rest, Text.splitOnChar_ne_nil _ _, hroot, by rw [hrest]; rfl, ?_⟩
    rw [hheaded, hrest]
    rfl
  · obtain ⟨more, rfl⟩ : ∃ more, rest = '/' :: more := by
      rw [hrest] at hroot
      unfold rootLength at hroot
      split at hroot <;> simp_all
    refine ⟨1, parts more, Text.splitOnChar_ne_nil _ _, hroot, by rw [hrest]; rfl, ?_⟩
    rw [hheaded, hrest]
    rfl

/-- Names that are among the components of a path make up a text that is part of it. -/
theorem ofNames_sublist {path : String} (hpath : isAbsolute path) {names : List (List Char)}
    (hnames : ∀ n ∈ names, IsName n) (h : names.Sublist (parts path.toList)) :
    (ofNames (rootLength path.toList) names).toList.Sublist path.toList := by
  obtain ⟨k, components, hne, hroot, hparts, htext⟩ := exists_components hpath
  rw [hparts, List.sublist_append_iff] at h
  obtain ⟨slashes, names, rfl, hslashes, hsub⟩ := h
  -- the components of the root are no names
  have hnil : slashes = [] := by
    refine List.eq_nil_iff_forall_not_mem.mpr fun n hn => ?_
    exact (hnames n (by simp [hn])).ne_nil (List.eq_of_mem_replicate (hslashes.subset hn))
  subst hnil
  rw [List.nil_append, hroot, toList_ofNames, htext]
  cases names with
  | nil =>
    obtain ⟨first, rest, rfl⟩ := List.exists_cons_of_ne_nil hne
    rw [assemble_succ_nil, List.replicate_succ', headed_cons]
    exact (List.Sublist.refl _).append (by simp)
  | cons name names =>
    rw [assemble_succ_cons]
    exact (List.Sublist.refl _).append (hsub.flatMap _)

theorem push_of_isIdle {part : List Char} (h : isIdle part) (rooted : Bool)
    (stack : List (List Char)) : push rooted stack part = stack := by
  simp [push, h]

/-- Going up takes the name on top away. -/
theorem push_up_cons {top : List Char} (h : top ≠ up) (rooted : Bool)
    (stack : List (List Char)) : push rooted (top :: stack) up = stack := by
  simp [push, isIdle, up, show top ≠ ['.', '.'] from h]

theorem push_up_nil : push true [] up = [] := rfl

/-- What a component leaves on a stack of names has been there, or is that component. -/
theorem push_sublist {stack : List (List Char)} (h : ∀ n ∈ stack, IsName n) {part : List Char}
    (hpart : '/' ∉ part) : (push true stack part).reverse.Sublist (stack.reverse ++ [part]) := by
  have hstack : stack.reverse.Sublist (stack.reverse ++ [part]) := List.sublist_append_left _ _
  by_cases hidle : isIdle part
  · rwa [push_of_isIdle hidle]
  by_cases hup : part = up
  · subst hup
    cases stack with
    | nil => simp [push_up_nil]
    | cons top rest =>
      rw [push_up_cons (h top (by simp)).ne_up]
      exact ((List.sublist_cons_self top rest).reverse).trans hstack
  · simp [push, hidle, hup]

theorem foldl_push_sublist {stack parts : List (List Char)} (h : ∀ n ∈ stack, IsName n)
    (hparts : ∀ p ∈ parts, '/' ∉ p) :
    (parts.foldl (push true) stack).reverse.Sublist (stack.reverse ++ parts) := by
  induction parts generalizing stack with
  | nil => simp
  | cons part parts ih =>
    obtain ⟨hpart, hparts⟩ := List.forall_mem_cons.mp hparts
    rw [← List.singleton_append, ← List.append_assoc]
    exact (ih (isName_of_mem_push h hpart) hparts).trans
      ((push_sublist h hpart).append (List.Sublist.refl _))

/-- The names that a path comes down to are among its components. -/
theorem normalNames_sublist (cs : List Char) : (normalNames cs).Sublist (parts cs) := by
  have hparts : ∀ p ∈ parts cs, '/' ∉ p := fun p hp => Text.not_mem_of_mem_splitOnChar hp
  have hempty : ∀ n ∈ ([] : List (List Char)), IsName n := by simp
  exact foldl_push_sublist hempty hparts

theorem exists_rootLength_eq {path : String} (h : isAbsolute path) :
    ∃ k, (k + 1 = 1 ∨ k + 1 = 2) ∧ rootLength path.toList = k + 1 := by
  obtain ⟨k, -, -, hroot, -⟩ := exists_components h
  exact ⟨k, hroot ▸ rootLength_of_isAbsolute h, hroot⟩

end Path

namespace World

open TsProject.Path (IsName ofNames parts push up)

/-! ### Links that a path goes up from -/

/-- A link stands at the end of the path. -/
def isLink (w : World) (path : String) : Bool :=
  match w.find false path with
  | .ok ⟨_, _, some (.link _)⟩ => true
  | _ => false

/-- Among some components, `..` stands behind a link; the names on the stack come before them. -/
def upFromLinkIn (w : World) (root : Nat) : (stack components : List (List Char)) → Bool
  | _, [] => false
  | stack, part :: rest =>
    (part = up && w.isLink (ofNames root stack.reverse)) ||
      w.upFromLinkIn root (push true stack part) rest

/-- **The path goes up from a link**: what stands in front of some `..` comes down to the path of
a link. -/
def upFromLink (w : World) (path : String) : Bool :=
  w.upFromLinkIn (Path.rootLength path.toList) [] (parts path.toList)

theorem upFromLinkIn_iff {w : World} {root : Nat} {stack components : List (List Char)} :
    w.upFromLinkIn root stack components ↔ ∃ before after, components = before ++ up :: after ∧
      w.isLink (ofNames root (before.foldl (push true) stack).reverse) := by
  induction components generalizing stack with
  | nil => simp [upFromLinkIn]
  | cons part rest ih =>
    rw [upFromLinkIn, Bool.or_eq_true, Bool.and_eq_true, decide_eq_true_eq, ih]
    constructor
    · rintro (⟨rfl, hlink⟩ | ⟨before, after, rfl, hlink⟩)
      · exact ⟨[], rest, rfl, hlink⟩
      · exact ⟨part :: before, after, rfl, hlink⟩
    · rintro ⟨before, after, heq, hlink⟩
      cases before with
      | nil =>
        obtain ⟨rfl, -⟩ := List.cons_eq_cons.mp heq
        exact .inl ⟨rfl, hlink⟩
      | cons first before =>
        obtain ⟨rfl, rfl⟩ := List.cons_eq_cons.mp heq
        exact .inr ⟨before, after, rfl, hlink⟩

/-! ### One component -/

section Lead

variable {w : World} {jump : Spot → String → Except OsCause Spot} {spot next : Spot}

/-- A step by a component that leads nowhere. -/
theorem Step.eq_of_isIdle {part : List Char} (h : Step w jump spot (String.ofList part) next)
    (hidle : Path.isIdle part) : next = spot := by
  have hname : String.ofList part = "" ∨ String.ofList part = "." := by
    rcases Bool.or_eq_true_iff.mp hidle with hnil | hdot
    · exact .inl (congrArg _ (of_decide_eq_true hnil))
    · exact .inr (congrArg _ (of_decide_eq_true hdot))
  generalize String.ofList part = name at h hname
  cases h with
  | stay => rfl
  | up => simp at hname
  | down hentry => exact absurd hname (not_or.mpr ⟨hentry.ne_empty, hentry.ne_dot⟩)
  | follow hentry => exact absurd hname (not_or.mpr ⟨hentry.ne_empty, hentry.ne_dot⟩)

/-- A step up leads to the parent directory. -/
theorem Step.eq_of_up (h : Step w jump spot (String.ofList Path.up) next) :
    next = ⟨spot.location.dropLast, spot.links, some .dir⟩ := by
  generalize htext : String.ofList Path.up = name at h
  cases h with
  | stay hidle => exact absurd hidle (by rw [← htext]; decide)
  | up => rfl
  | down hentry => exact absurd htext.symm hentry.ne_up
  | follow hentry => exact absurd htext.symm hentry.ne_up

/-- A way that is not to follow a link at its end stops at the link. -/
theorem Step.leadWith_false {name : List Char} {target : String}
    (h : Step w jump spot (String.ofList name) next) (hname : IsName name)
    (htarget : w.nodeAt (spot.location ++ [String.ofList name]) = some (.link target)) :
    leadWith w jump false spot [String.ofList name] =
      .ok ⟨spot.location ++ [String.ofList name], spot.links, some (.link target)⟩ := by
  generalize htext : String.ofList name = text at h htarget ⊢
  cases h with
  | stay hidle =>
    rcases hidle with rfl | rfl
    · exact absurd (String.ofList_injective htext) hname.ne_nil
    · exact absurd (String.ofList_injective htext) hname.ne_dot
  | up => exact absurd (String.ofList_injective htext) hname.ne_up
  | down _ hlink => exact absurd htarget (hlink _)
  | follow hentry =>
    rw [leadWith]
    simp [hentry.ne_empty, hentry.ne_dot, hentry.ne_up, Nat.not_lt.mpr hentry.short, htarget]

end Lead

/-- Where names lead from the root. -/
def leadNames (w : World) (names : List (List Char)) : Except OsCause Spot :=
  leadWith w (w.jump maxLinks) true ⟨[], maxLinks, some .dir⟩ (names.map String.ofList)

section Names

variable {w : World} {names : List (List Char)} {name : List Char} {spot next : Spot}

theorem leadNames_concat_iff : w.leadNames (names ++ [name]) = .ok next ↔ ∃ spot,
    w.leadNames names = .ok spot ∧
      Step w (w.jump maxLinks) spot (String.ofList name) next := by
  rw [leadNames, List.map_append, leadWith_append_iff]
  refine exists_congr fun middle => and_congr_right fun _ => ?_
  simp [leadWith_cons_iff, leadWith_nil_iff]

/-- **One component**: the names on the stack lead on as the components do, where none goes up
from a link. -/
theorem leadNames_push {stack : List (List Char)} {part : List Char}
    (hstack : ∀ n ∈ stack, IsName n) (hspot : w.leadNames stack.reverse = .ok spot)
    (hstep : Step w (w.jump maxLinks) spot (String.ofList part) next)
    (hlink : part = up → ∀ top rest dir target, stack = top :: rest →
      w.leadNames rest.reverse = .ok dir →
        w.nodeAt (dir.location ++ [String.ofList top]) ≠ some (.link target)) :
    w.leadNames (push true stack part).reverse = .ok next := by
  by_cases hidle : Path.isIdle part
  · rw [Path.push_of_isIdle hidle, hstep.eq_of_isIdle hidle, hspot]
  by_cases hup : part = up
  · subst hup
    rw [hstep.eq_of_up]
    cases stack with
    | nil =>
      obtain rfl := leadWith_nil_iff.mp hspot
      rfl
    | cons top rest =>
      obtain ⟨htop, hrest⟩ := List.forall_mem_cons.mp hstack
      rw [List.reverse_cons, leadNames_concat_iff] at hspot
      obtain ⟨dir, hdir, htopStep⟩ := hspot
      rw [Path.push_up_cons htop.ne_up, hdir]
      -- the name on top has led down from `dir`, so that its parent is `dir` again
      rcases htopStep.down_or_follow htop with ⟨-, rfl⟩ | ⟨target, htarget, -⟩
      · obtain ⟨location, links, node⟩ := dir
        obtain rfl : node = some .dir := htopStep.node_eq
        simp
      · exact absurd htarget (hlink rfl top rest dir target rfl hdir)
  · have hpush : push true stack part = part :: stack := by simp [push, hidle, hup]
    rw [hpush, List.reverse_cons, leadNames_concat_iff]
    exact ⟨spot, hspot, hstep⟩

/-- A name that is followed as a link stands at the end of the path of a link. -/
theorem isLink_of_leadNames {k : Nat} (hk : k + 1 = 1 ∨ k + 1 = 2)
    (h : ∀ n ∈ names ++ [name], IsName n)
    (hnull : '\x00' ∉ (ofNames (k + 1) (names ++ [name])).toList)
    (hshort : (ofNames (k + 1) (names ++ [name])).utf8ByteSize < pathLimit)
    (hspot : w.leadNames names = .ok spot)
    (hstep : Step w (w.jump maxLinks) spot (String.ofList name) next) {target : String}
    (htarget : w.nodeAt (spot.location ++ [String.ofList name]) = some (.link target)) :
    w.isLink (ofNames (k + 1) (names ++ [name])) := by
  have habsolute := (Path.isNormal_ofNames hk h).isAbsolute
  have hne : ofNames (k + 1) (names ++ [name]) ≠ "" := by
    intro hempty
    rw [hempty] at habsolute
    exact absurd habsolute (by decide)
  have hlead : leadWith w (w.jump maxLinks) false (w.start (ofNames (k + 1) (names ++ [name])))
      (World.names (ofNames (k + 1) (names ++ [name]))) =
        .ok ⟨spot.location ++ [String.ofList name], spot.links, some (.link target)⟩ := by
    rw [start, origin, if_pos habsolute, leadWith_names_ofNames h, List.map_append,
      List.map_singleton, leadWith_concat, ← leadNames, hspot]
    exact hstep.leadWith_false (h name (by simp)) htarget
  rw [isLink, find_eq_ok_iff.mpr ⟨hnull, hne, hshort, hlead⟩]

end Names

/-! ### Whole paths -/

section Whole

variable {w : World} {path : String} (hpath : Path.isAbsolute path)
include hpath

/-- **The run of the components**: what they leave on the stack leads where they do, where none
goes up from a link. -/
theorem leadNames_foldl_push (hnull : '\x00' ∉ path.toList)
    (hshort : path.utf8ByteSize < pathLimit) {stack components : List (List Char)}
    (hstack : ∀ n ∈ stack, IsName n) (hcomponents : ∀ p ∈ components, '/' ∉ p)
    (hsub : (stack.reverse ++ components).Sublist (parts path.toList))
    (hup : w.upFromLinkIn (Path.rootLength path.toList) stack components = false)
    {spot result : Spot} (hspot : w.leadNames stack.reverse = .ok spot)
    (hresult : leadWith w (w.jump maxLinks) true spot (components.map String.ofList) =
      .ok result) :
    w.leadNames (components.foldl (push true) stack).reverse = .ok result := by
  induction components generalizing stack spot with
  | nil =>
    obtain rfl := leadWith_nil_iff.mp hresult
    exact hspot
  | cons part rest ih =>
    obtain ⟨hpart, hrest⟩ := List.forall_mem_cons.mp hcomponents
    obtain ⟨hhere, hlater⟩ := Bool.or_eq_false_iff.mp hup
    obtain ⟨next, hstep, hresult⟩ := leadWith_cons_iff.mp hresult
    have hpush : (push true stack part).reverse.Sublist (stack.reverse ++ [part]) :=
      Path.push_sublist hstack hpart
    rw [List.append_cons] at hsub
    refine ih (Path.isName_of_mem_push hstack hpart) hrest
      ((hpush.append (List.Sublist.refl rest)).trans hsub) hlater ?_ hresult
    refine leadNames_push hstack hspot hstep ?_
    rintro rfl top below dir target rfl hdir htarget
    -- the names on the stack are part of the path, and so is the path of the link
    have hnames : ∀ n ∈ (top :: below).reverse, IsName n :=
      fun n hn => hstack n (List.mem_reverse.mp hn)
    have htext : (ofNames (Path.rootLength path.toList) (top :: below).reverse).toList.Sublist
        path.toList := by
      refine Path.ofNames_sublist hpath hnames (List.Sublist.trans ?_ hsub)
      rw [List.append_assoc]
      exact List.sublist_append_left _ _
    obtain ⟨k, hroot, hk⟩ := Path.exists_rootLength_eq hpath
    rw [hk] at htext hhere
    rw [List.reverse_cons] at hnames htext hspot
    obtain ⟨dir', hdir', htop⟩ := leadNames_concat_iff.mp hspot
    obtain rfl := Except.ok.inj (hdir.symm.trans hdir')
    have hlink := isLink_of_leadNames hroot hnames (fun hmem => hnull (htext.subset hmem))
      (Nat.lt_of_le_of_lt (utf8ByteSize_le_of_sublist htext) hshort) hdir htop htarget
    simp [hlink] at hhere

/-- **The normal form of a path** that goes up from no link leads to the same spot. -/
theorem existing_normalize (hup : w.upFromLink path = false) {spot : Spot}
    (hspot : w.existing path = .ok spot) : w.existing (Path.normalize path) = .ok spot := by
  obtain ⟨hfind, hnode⟩ := existing_iff.mp hspot
  obtain ⟨hnull, -, hshort, hlead⟩ := find_eq_ok_iff.mp hfind
  have hcomponents : ∀ p ∈ parts path.toList, '/' ∉ p :=
    fun p hp => Text.not_mem_of_mem_splitOnChar hp
  obtain ⟨k, hroot, hk⟩ := Path.exists_rootLength_eq hpath
  have hnames : ∀ n ∈ Path.normalNames path.toList, IsName n := Path.isName_of_mem_normalNames
  have htext := Path.ofNames_sublist hpath hnames (Path.normalNames_sublist _)
  rw [start, origin, if_pos hpath] at hlead
  rw [Path.normalize_eq_ofNames hpath]
  rw [hk] at htext ⊢
  refine (existing_ofNames_iff hroot hnames).mpr
    ⟨fun hmem => hnull (htext.subset hmem),
      Nat.lt_of_le_of_lt (utf8ByteSize_le_of_sublist htext) hshort, ?_, hnode⟩
  exact leadNames_foldl_push hpath hnull hshort (by simp) hcomponents (by simp) hup rfl hlead

end Whole

end World

end TsProject

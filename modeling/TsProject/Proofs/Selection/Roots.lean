import Mathlib.Data.List.Pairwise
import TsProject.Proofs.Selection.Base
import TsProject.Proofs.Text.Order

/-!
# Roots of walks

The directories that are walked for some specifications are bases of specifications, in strict
order (`pairwise_lt_walkRoots`), and every base lies within one of them
(`exists_isWithin_walkRoots`). Of specifications in normal form they are exactly the bases that
lie within no other (`mem_walkRoots_iff`).
-/

namespace TsProject.FileSpec

open TsProject.Path (IsNormal)

theorem isWithin_self (root : String) : isWithin root root := by
  simp [isWithin]

/-! ### Adding one directory after another -/

/-- Directories are only added, in the order in which they come. -/
theorem exists_foldl_addRoot_eq (bases roots : List String) :
    ∃ added, bases.foldl addRoot roots = roots ++ added ∧ added.Sublist bases := by
  induction bases generalizing roots with
  | nil => exact ⟨[], by simp⟩
  | cons base bases ih =>
    rw [List.foldl_cons, addRoot]
    split
    · obtain ⟨added, heq, hsub⟩ := ih roots
      exact ⟨added, heq, hsub.cons base⟩
    · obtain ⟨added, heq, hsub⟩ := ih (roots ++ [base])
      exact ⟨base :: added, by simp [heq], hsub.cons_cons base⟩

theorem mem_foldl_addRoot_of_mem {root : String} {roots : List String} (bases : List String)
    (h : root ∈ roots) : root ∈ bases.foldl addRoot roots := by
  obtain ⟨added, heq, -⟩ := exists_foldl_addRoot_eq bases roots
  rw [heq]
  exact List.mem_append_left _ h

/-- Every directory that comes is within one of those kept. -/
theorem exists_isWithin_foldl_addRoot {base : String} {bases : List String} (roots : List String)
    (h : base ∈ bases) : ∃ root ∈ bases.foldl addRoot roots, isWithin root base := by
  induction bases generalizing roots with
  | nil => simp at h
  | cons first bases ih =>
    rcases List.mem_cons.mp h with rfl | h
    · rw [List.foldl_cons, addRoot]
      split
      · rename_i hany
        obtain ⟨root, hroot, hwithin⟩ := List.any_eq_true.mp hany
        exact ⟨root, mem_foldl_addRoot_of_mem bases hroot, hwithin⟩
      · exact ⟨base, mem_foldl_addRoot_of_mem bases (by simp), isWithin_self base⟩
    · exact ih _ h

/-- No directory is kept behind one that it lies within. -/
theorem pairwise_foldl_addRoot {bases roots : List String}
    (h : roots.Pairwise fun a b => ¬ isWithin a b) :
    (bases.foldl addRoot roots).Pairwise fun a b => ¬ isWithin a b := by
  induction bases generalizing roots with
  | nil => exact h
  | cons base bases ih =>
    rw [List.foldl_cons, addRoot]
    split
    · exact ih h
    · rename_i hany
      refine ih (List.pairwise_append.mpr ⟨h, List.pairwise_singleton _ _, ?_⟩)
      rintro root hroot added hadded hwithin
      obtain rfl := List.mem_singleton.mp hadded
      exact hany (List.any_eq_true.mpr ⟨root, hroot, hwithin⟩)

/-! ### The directories to walk -/

/-- The bases of specifications, without repetition and in order. -/
def sortedBases (specs : List String) : List String :=
  ((specs.map base).eraseDups).mergeSort (· ≤ ·)

theorem mem_sortedBases {specs : List String} {root : String} :
    root ∈ sortedBases specs ↔ ∃ spec ∈ specs, base spec = root := by
  rw [sortedBases, List.mem_mergeSort, List.mem_eraseDups, List.mem_map]

theorem pairwise_lt_sortedBases (specs : List String) :
    (sortedBases specs).Pairwise (· < ·) := by
  have hnodup : (sortedBases specs).Nodup :=
    (List.mergeSort_perm _ _).nodup_iff.mpr (nodup_eraseDups _)
  refine ((Text.pairwise_mergeSort _).and hnodup).imp fun {a b} hab => ?_
  by_contra hlt
  exact hab.2 (String.le_antisymm hab.1 (String.not_lt.mp hlt))

theorem walkRoots_sublist_sortedBases (specs : List String) :
    (walkRoots specs).Sublist (sortedBases specs) := by
  obtain ⟨added, heq, hsub⟩ := exists_foldl_addRoot_eq (sortedBases specs) []
  rw [List.nil_append] at heq
  rw [← heq] at hsub
  exact hsub

/-- **Roots come in order**, none of them twice. -/
theorem pairwise_lt_walkRoots (specs : List String) : (walkRoots specs).Pairwise (· < ·) :=
  (pairwise_lt_sortedBases specs).sublist (walkRoots_sublist_sortedBases specs)

theorem exists_base_eq_of_mem_walkRoots {specs : List String} {root : String}
    (h : root ∈ walkRoots specs) : ∃ spec ∈ specs, base spec = root :=
  mem_sortedBases.mp ((walkRoots_sublist_sortedBases specs).subset h)

/-- One specification has one root. -/
theorem walkRoots_singleton (spec : String) : walkRoots [spec] = [base spec] := by
  simp [walkRoots, addRoot, List.eraseDups_cons]

theorem forall_isBase_walkRoots {specs : List String} (h : ∀ spec ∈ specs, IsBase (base spec)) :
    ∀ root ∈ walkRoots specs, IsBase root := by
  intro root hroot
  obtain ⟨spec, hspec, rfl⟩ := exists_base_eq_of_mem_walkRoots hroot
  exact h spec hspec

/-- The roots of normal specifications are bases. -/
theorem isBase_of_mem_walkRoots {incl specs : List String} (hincl : ∀ s ∈ incl, IsNormal s)
    (hspecs : incl.map expand = specs.map .ok) {root : String} (h : root ∈ walkRoots specs) :
    IsBase root :=
  forall_isBase_walkRoots (fun _ => isBase_of_mem hincl hspecs) root h

/-- **Every base is within a root.** -/
theorem exists_isWithin_walkRoots {specs : List String} {spec : String} (h : spec ∈ specs) :
    ∃ root ∈ walkRoots specs, isWithin root (base spec) :=
  exists_isWithin_foldl_addRoot [] (mem_sortedBases.mpr ⟨spec, h, rfl⟩)

/-! ### Bases within bases -/

section Bases

variable {a b c : String}

theorem IsBase.isWithin_trans (ha : IsBase a) (hb : IsBase b) (hc : IsNormal c)
    (hab : isWithin a b) (hbc : isWithin b c) : isWithin a c := by
  rw [isWithin_iff_trail ha hb.isNormal] at hab
  rw [isWithin_iff_trail hb hc] at hbc
  exact (isWithin_iff_trail ha hc).mpr (hab.trans hbc)

theorem IsBase.isWithin_antisymm (ha : IsBase a) (hb : IsBase b) (hab : isWithin a b)
    (hba : isWithin b a) : a = b := by
  rw [isWithin_iff_trail ha hb.isNormal] at hab
  rw [isWithin_iff_trail hb ha.isNormal] at hba
  exact Path.trail_inj ha.isNormal hb.isNormal (hab.eq_of_length_le hba.length_le)

/-- A base comes before what lies within it. -/
theorem IsBase.le_of_isWithin (ha : IsBase a) (h : isWithin a b) : a ≤ b := by
  have hslash : a.toList <+: (a.toList.reverse.dropWhile (· = '/')).reverse ++ ['/'] := by
    rcases ha.eq_root_or with rfl | ⟨k, names, -, hnames, hne, rfl⟩
    · exact List.prefix_refl _
    · rw [Path.toList_ofNames, dropWhile_slash_reverse (Path.getLast?_assemble k hne hnames)]
      exact List.prefix_append _ _
  rw [isWithin, Bool.or_eq_true, beq_iff_eq, Text.startsWith_iff, String.toList_ofList] at h
  rcases h with rfl | h
  · exact String.le_refl _
  · exact Text.le_of_prefix (hslash.trans h)

/-- **The roots are the outermost bases**: those that lie within no other. -/
theorem mem_walkRoots_iff {specs : List String} (h : ∀ spec ∈ specs, IsBase (base spec))
    {root : String} : root ∈ walkRoots specs ↔
      (∃ spec ∈ specs, base spec = root) ∧
        ∀ spec ∈ specs, isWithin (base spec) root → base spec = root := by
  have hbase := forall_isBase_walkRoots h
  have hpairs : (walkRoots specs).Pairwise fun a b => ¬ isWithin a b ∧ ¬ isWithin b a := by
    refine ((pairwise_foldl_addRoot List.Pairwise.nil).and
      (pairwise_lt_walkRoots specs)).imp_of_mem fun {a b} ha hb hab => ⟨hab.1, fun hba => ?_⟩
    -- what comes first is not within what comes later
    exact String.not_lt.mpr ((hbase b hb).le_of_isWithin hba) hab.2
  have heq : ∀ a ∈ walkRoots specs, ∀ b ∈ walkRoots specs, isWithin a b → a = b := by
    intro a ha b hb hab
    by_contra hne
    have : Std.Symm fun a b => ¬ isWithin a b ∧ ¬ isWithin b a := ⟨fun _ _ h => ⟨h.2, h.1⟩⟩
    exact (hpairs.forall ha hb hne).1 hab
  constructor
  · intro hroot
    refine ⟨exists_base_eq_of_mem_walkRoots hroot, fun spec hspec hwithin => ?_⟩
    obtain ⟨outer, houter, hspecWithin⟩ := exists_isWithin_walkRoots hspec
    have hbroot := hbase root hroot
    have hbouter := hbase outer houter
    obtain rfl : outer = root := heq outer houter root hroot
      (hbouter.isWithin_trans (h spec hspec) hbroot.isNormal hspecWithin hwithin)
    exact (h spec hspec).isWithin_antisymm hbroot hwithin hspecWithin
  · rintro ⟨⟨spec, hspec, rfl⟩, hmin⟩
    obtain ⟨outer, houter, hwithin⟩ := exists_isWithin_walkRoots hspec
    obtain ⟨other, hother, rfl⟩ := exists_base_eq_of_mem_walkRoots houter
    rwa [← hmin other hother hwithin]

end Bases

end TsProject.FileSpec

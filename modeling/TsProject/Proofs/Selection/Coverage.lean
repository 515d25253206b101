import TsProject.Proofs.Selection.Roots
import TsProject.Proofs.Selection.Select
import TsProject.Proofs.World.Reach

/-!
# What one more specification loses

One more include specification can move the root of a walk further up, and the way down from
there does not enter hidden directories and package directories, although the specifications
may name one. `mem_matchFiles_append_iff` says exactly which files are lost: those below the base
of the new specification that lie, from there, in a directory that is not open. A base that is
no path at all loses everything, unless another base makes its walk unnecessary.
-/

namespace TsProject.Selection

open FileSpec (IsBase IsOpenName base expand isWithin walkRoots)
open TsProject.Path (IsName IsNormal ofNames trail)

/-! ### Walks of bases -/

/-- **The trail of a walked file**: behind that of the base come open names, and a last one. -/
theorem exists_trail_of_mem_walk {w : World} (hw : w.WellNamed) {root file : String}
    (hroot : IsNormal root) (h : file ∈ w.walk root) :
    ∃ dirs name, (∀ n ∈ dirs, IsOpenName n) ∧ trail file = trail root ++ dirs ++ [name] := by
  obtain ⟨k, names, hlength, hnames, rfl⟩ := hroot.exists_names
  obtain ⟨dirs, name, hdirs, hname, rfl⟩ := hw.exists_names_of_mem_walk hlength hnames h
  have hall : ∀ n ∈ names ++ dirs ++ [name], IsName n :=
    List.forall_mem_append.mpr ⟨List.forall_mem_append.mpr ⟨hnames, fun n hn => (hdirs n hn).1⟩,
      List.forall_mem_singleton.mpr hname⟩
  refine ⟨dirs, name, fun n hn => (hdirs n hn).2, ?_⟩
  rw [Path.trail_ofNames hlength hall, Path.trail_ofNames hlength hnames]
  simp

/-- A walk meets what a walk from further down meets, if the names between are open. -/
theorem mem_walk_of_trail {w : World} {root inner file : String} {between : List (List Char)}
    (hroot : IsNormal root) (hinner : IsNormal inner) (hbetween : ∀ n ∈ between, IsOpenName n)
    (htrail : trail inner = trail root ++ between) (h : file ∈ w.walk inner) :
    file ∈ w.walk root := by
  obtain ⟨k, names, hlength, hnames, rfl⟩ := hroot.exists_names
  obtain ⟨j, names', hlength', hnames', rfl⟩ := hinner.exists_names
  obtain ⟨hroots, rfl⟩ := Path.trail_append_names hlength hlength' hnames hnames'
    (fun n hn => (hbetween n hn).ne_nil) htrail
  obtain rfl : j = k := Nat.succ.inj hroots
  refine World.mem_walk_of_append hlength hnames (fun n hn => ⟨hnames' n ?_, hbetween n hn⟩) h
  exact List.mem_append_right _ hn

/-! ### One more root -/

/-- From the directory down to the path, all directories are open. -/
def OpenBelow (dir path : String) : Prop :=
  ∀ dirs name, trail path = trail dir ++ dirs ++ [name] → ∀ n ∈ dirs, IsOpenName n

/-- The base of a specification is a path, or its walk is unnecessary. -/
def Walkable (specs : List String) (full : String) : Prop :=
  '\x00' ∈ (base full).toList → ∃ spec ∈ specs, isWithin (base spec) (base full)

section Roots

variable {specs : List String} {full root : String}

/-- **The roots with one more specification**: those that its base is not around, and its base,
unless that lies within another. -/
theorem mem_walkRoots_append_iff (hspecs : ∀ spec ∈ specs, IsBase (base spec))
    (hfull : IsBase (base full)) : root ∈ walkRoots (specs ++ [full]) ↔
      (root ∈ walkRoots specs ∧ (isWithin (base full) root → base full = root)) ∨
        (root = base full ∧ ∀ spec ∈ specs, isWithin (base spec) root → base spec = root) := by
  have hall : ∀ spec ∈ specs ++ [full], IsBase (base spec) :=
    List.forall_mem_append.mpr ⟨hspecs, List.forall_mem_singleton.mpr hfull⟩
  rw [FileSpec.mem_walkRoots_iff hall, FileSpec.mem_walkRoots_iff hspecs]
  simp only [List.mem_append, List.mem_singleton]
  constructor
  · -- a root is the base of an old specification or of the new one
    rintro ⟨⟨spec, hspec | rfl, rfl⟩, hmin⟩
    · exact Or.inl ⟨⟨⟨spec, hspec, rfl⟩, fun other hother => hmin other (Or.inl hother)⟩,
        hmin full (Or.inr rfl)⟩
    · exact Or.inr ⟨rfl, fun other hother => hmin other (Or.inl hother)⟩
  · rintro (⟨⟨⟨spec, hspec, rfl⟩, hmin⟩, hfullMin⟩ | ⟨rfl, hmin⟩)
    · refine ⟨⟨spec, Or.inl hspec, rfl⟩, fun other hother => ?_⟩
      rcases hother with hother | rfl
      · exact hmin other hother
      · exact hfullMin
    · refine ⟨⟨full, Or.inr rfl, rfl⟩, fun other hother => ?_⟩
      rcases hother with hother | rfl
      · exact hmin other hother
      · exact fun _ => rfl

/-- Every root with one more specification is a path, if its base is or is not needed. -/
theorem forall_not_null_append_iff (hspecs : ∀ spec ∈ specs, IsBase (base spec))
    (hfull : IsBase (base full)) (h : ∀ root ∈ walkRoots specs, '\x00' ∉ root.toList) :
    (∀ root ∈ walkRoots (specs ++ [full]), '\x00' ∉ root.toList) ↔ Walkable specs full := by
  constructor
  · intro hnone hnull
    by_contra hno
    refine hnone _ ((mem_walkRoots_append_iff hspecs hfull).mpr (Or.inr ⟨rfl, ?_⟩)) hnull
    exact fun spec hspec hwithin => absurd ⟨spec, hspec, hwithin⟩ hno
  · intro hwalkable root hroot hnull
    rcases (mem_walkRoots_append_iff hspecs hfull).mp hroot with ⟨hroot, -⟩ | ⟨rfl, hmin⟩
    · exact h root hroot hnull
    · -- the base that makes the walk unnecessary is the same one, and was a root before
      obtain ⟨spec, hspec, hwithin⟩ := hwalkable hnull
      refine h _ ((FileSpec.mem_walkRoots_iff hspecs).mpr ⟨⟨spec, hspec, ?_⟩, hmin⟩) hnull
      exact hmin spec hspec hwithin

/-- A file that is walked is still walked with one more specification exactly if the directories
below its base are open. -/
theorem exists_mem_walk_append_iff {w : World} (hw : w.WellNamed)
    (hspecs : ∀ spec ∈ specs, IsBase (base spec)) (hfull : IsBase (base full)) {path : String}
    (hroot : root ∈ walkRoots specs) (hpath : path ∈ w.walk root) :
    (∃ root ∈ walkRoots (specs ++ [full]), path ∈ w.walk root) ↔ OpenBelow (base full) path := by
  have hroots : ∀ root, root ∈ walkRoots (specs ++ [full]) →
      IsBase root ∧ (isWithin (base full) root → base full = root) := by
    intro root hroot
    rcases (mem_walkRoots_append_iff hspecs hfull).mp hroot with ⟨hroot, hmin⟩ | ⟨rfl, -⟩
    · obtain ⟨spec, hspec, rfl⟩ := FileSpec.exists_base_eq_of_mem_walkRoots hroot
      exact ⟨hspecs spec hspec, hmin⟩
    · exact ⟨hfull, fun _ => rfl⟩
  constructor
  · rintro ⟨outer, houter, hwalk⟩ dirs name htrail n hn
    obtain ⟨hbase, hmin⟩ := hroots outer houter
    obtain ⟨passed, last, hpassed, houterTrail⟩ :=
      exists_trail_of_mem_walk hw hbase.isNormal hwalk
    rw [List.append_assoc] at htrail houterTrail
    -- the root is above the new base, since it is not strictly below it
    have habove : trail outer <+: trail (base full) := by
      rcases List.prefix_or_prefix_of_prefix (houterTrail ▸ List.prefix_append _ _)
        (htrail ▸ List.prefix_append _ _) with h | h
      · exact h
      · have heq := hmin ((FileSpec.isWithin_iff_trail hfull hbase.isNormal).mpr h)
        exact heq ▸ List.prefix_refl _
    obtain ⟨between, hbetween⟩ := habove
    rw [← hbetween, houterTrail, List.append_assoc, List.append_cancel_left_eq,
      ← List.append_assoc] at htrail
    obtain ⟨rfl, -⟩ := List.append_inj' htrail rfl
    exact hpassed n (List.mem_append_right _ hn)
  · intro hopen
    obtain ⟨⟨spec, hspec, rfl⟩, hmin⟩ := (FileSpec.mem_walkRoots_iff hspecs).mp hroot
    have hbase := hspecs spec hspec
    by_cases hkept : isWithin (base full) (base spec) → base full = base spec
    · exact ⟨_, (mem_walkRoots_append_iff hspecs hfull).mpr (Or.inl ⟨hroot, hkept⟩), hpath⟩
    · -- the new base is a root in its place, being within no other one
      obtain ⟨hwithin, hne⟩ := Classical.not_imp.mp hkept
      refine ⟨base full, (mem_walkRoots_append_iff hspecs hfull).mpr (Or.inr ⟨rfl, ?_⟩), ?_⟩
      · intro other hother hotherWithin
        have hbaseOther := hspecs other hother
        have heq := hmin other hother
          (hbaseOther.isWithin_trans hfull hbase.isNormal hotherWithin hwithin)
        exact absurd (hfull.isWithin_antisymm hbase hwithin (heq ▸ hotherWithin)) hne
      · obtain ⟨between, hbetween⟩ := (FileSpec.isWithin_iff_trail hfull hbase.isNormal).mp hwithin
        obtain ⟨passed, last, -, htrail⟩ := exists_trail_of_mem_walk hw hbase.isNormal hpath
        rw [← hbetween, List.append_assoc (trail (base full))] at htrail
        refine mem_walk_of_trail hfull.isNormal hbase.isNormal (fun n hn => ?_) hbetween.symm hpath
        exact hopen _ last htrail n (List.mem_append_left _ hn)

end Roots

/-! ### Matching with one more specification -/

/-- The paths that are matched. -/
theorem mem_inBuckets_candidates_iff {w : World} {specs exclude extensions : List String}
    {path : String} : path ∈ inBuckets specs (candidates w (walkRoots specs) exclude extensions) ↔
      (∃ root ∈ walkRoots specs, path ∈ w.walk root) ∧ hasExtension extensions path ∧
        (∀ spec ∈ exclude, ¬ FileSpec.accepts true spec path) ∧
          ∃ spec ∈ specs, FileSpec.accepts false spec path := by
  rw [mem_inBuckets, mem_candidates, List.mem_flatMap]
  tauto

theorem matchFiles_eq_ok_iff {w : World} {incl specs exclude extensions found : List String}
    (hspecs : incl.map expand = specs.map .ok) :
    matchFiles w incl exclude extensions = .ok found ↔
      (∀ root ∈ walkRoots specs, '\x00' ∉ root.toList) ∧
        inBuckets specs (candidates w (walkRoots specs) exclude extensions) = found := by
  rw [matchFiles_eq w exclude extensions hspecs]
  split_ifs with hnull
  · obtain ⟨root, hroot, hmem⟩ := hnull
    simpa using fun h => absurd hmem (h root hroot)
  · have hnone : ∀ root ∈ walkRoots specs, '\x00' ∉ root.toList :=
      fun root hroot hmem => hnull ⟨root, hroot, hmem⟩
    rw [Except.ok.injEq]
    exact ⟨fun h => ⟨hnone, h⟩, And.right⟩

/-- **One more specification**, added to specifications that match a file: the file is still
matched exactly if the base of the new one can be walked, and all directories from there down to
the file are open. -/
theorem mem_matchFiles_append_iff {w : World} (hw : w.WellNamed)
    {incl specs exclude extensions found : List String} {spec full path : String}
    (hincl : ∀ s ∈ incl, IsNormal s) (hspec : IsNormal spec)
    (hspecs : incl.map expand = specs.map .ok) (hfull : expand spec = .ok full)
    (hfound : matchFiles w incl exclude extensions = .ok found) (hpath : path ∈ found) :
    (∃ found', matchFiles w (incl ++ [spec]) exclude extensions = .ok found' ∧ path ∈ found') ↔
      Walkable specs full ∧ OpenBelow (base full) path := by
  have hbases : ∀ spec ∈ specs, IsBase (base spec) := by
    intro other hother
    have hmem : Except.ok other ∈ incl.map expand := hspecs ▸ List.mem_map_of_mem hother
    obtain ⟨s, hs, hexpand⟩ := List.mem_map.mp hmem
    exact FileSpec.isBase_base (hincl s hs) hexpand
  have hbase := FileSpec.isBase_base hspec hfull
  have hspecs' : (incl ++ [spec]).map expand = (specs ++ [full]).map .ok := by
    rw [List.map_append, List.map_append, hspecs, List.map_singleton, List.map_singleton, hfull]
  obtain ⟨hnull, rfl⟩ := (matchFiles_eq_ok_iff hspecs).mp hfound
  obtain ⟨⟨root, hroot, hwalk⟩, hextension, hexclude, taker, htaker, haccepts⟩ :=
    mem_inBuckets_candidates_iff.mp hpath
  -- what takes the path still does, so that the answer depends on the roots alone
  have htaken : ∃ s ∈ specs ++ [full], FileSpec.accepts false s path :=
    ⟨taker, List.mem_append_left _ htaker, haccepts⟩
  rw [← forall_not_null_append_iff hbases hbase hnull,
    ← exists_mem_walk_append_iff hw hbases hbase hroot hwalk]
  constructor
  · rintro ⟨found', hfound', hpath'⟩
    obtain ⟨hnull', rfl⟩ := (matchFiles_eq_ok_iff hspecs').mp hfound'
    exact ⟨hnull', (mem_inBuckets_candidates_iff.mp hpath').1⟩
  · rintro ⟨hnull', hwalked⟩
    exact ⟨_, (matchFiles_eq_ok_iff hspecs').mpr ⟨hnull', rfl⟩,
      mem_inBuckets_candidates_iff.mpr ⟨hwalked, hextension, hexclude, htaken⟩⟩

/-- A hidden directory that holds a source. -/
def hiddenSource : World :=
  { nodes := [(["p"], .dir), (["p", ".hidden"], .dir),
      (["p", ".hidden", "a.ts"], .file [] false)] }

theorem matchFiles_hiddenSource : matchFiles hiddenSource ["/p/.hidden/*.ts"] [] [".ts"] =
    .ok ["/p/.hidden/a.ts"] := by decide +kernel

theorem not_openBelow_hiddenSource : ¬ OpenBelow (base "/p/*.ts") "/p/.hidden/a.ts" := by
  intro hopen
  have hhidden := hopen [".hidden".toList] "a.ts".toList (by decide) ".hidden".toList (by decide)
  exact hhidden.notHidden rfl

/-- The source is lost to a specification of the directory around it, and not to one of another
directory. -/
theorem lost_and_kept_hiddenSource :
    (¬ ∃ found', matchFiles hiddenSource (["/p/.hidden/*.ts"] ++ ["/p/*.ts"]) [] [".ts"] =
      .ok found' ∧ "/p/.hidden/a.ts" ∈ found') ∧
    ∃ found', matchFiles hiddenSource (["/p/.hidden/*.ts"] ++ ["/q/*.ts"]) [] [".ts"] =
      .ok found' ∧ "/p/.hidden/a.ts" ∈ found' := by
  have hspecs : ["/p/.hidden/*.ts"].map expand = ["/p/.hidden/*.ts"].map .ok := by decide
  have haround : expand "/p/*.ts" = .ok "/p/*.ts" := by decide
  have hother : expand "/q/*.ts" = .ok "/q/*.ts" := by decide
  constructor
  · rw [mem_matchFiles_append_iff (by decide) (by decide) (by decide) hspecs haround
      matchFiles_hiddenSource (by decide)]
    rintro ⟨-, hopen⟩
    exact not_openBelow_hiddenSource hopen
  · rw [mem_matchFiles_append_iff (by decide) (by decide) (by decide) hspecs hother
      matchFiles_hiddenSource (by decide)]
    refine ⟨fun hnull => absurd hnull (by decide), fun dirs name htrail => ?_⟩
    have hpath : trail "/p/.hidden/a.ts" = ["p".toList, ".hidden".toList, "a.ts".toList] := by
      decide
    have hbase : trail (base "/q/*.ts") = ["q".toList] := by decide
    rw [hpath, hbase] at htrail
    simp at htrail

/-- Specifications can take files away from one another: a hidden directory that one of them
names is no longer walked for it, once another one is walked from further up. -/
theorem not_forall_subset_matchFiles_append :
    ¬ ∀ (w : World) (incl : List String) (spec : String) (exclude extensions found : List String),
        w.WellNamed → (∀ s ∈ incl, IsNormal s) → IsNormal spec → (∃ full, expand spec = .ok full) →
        matchFiles w incl exclude extensions = .ok found →
        ∃ found', matchFiles w (incl ++ [spec]) exclude extensions = .ok found' ∧
          found ⊆ found' := by
  intro h
  have haround : expand "/p/*.ts" = .ok "/p/*.ts" := by decide
  have hspecs : (["/p/.hidden/*.ts"] ++ ["/p/*.ts"]).map expand =
      (["/p/.hidden/*.ts"] ++ ["/p/*.ts"]).map .ok := by decide
  obtain ⟨found', hfound', hsubset⟩ := h hiddenSource ["/p/.hidden/*.ts"] "/p/*.ts" [] [".ts"]
    ["/p/.hidden/a.ts"] (by decide) (by decide) (by decide) ⟨_, haround⟩ matchFiles_hiddenSource
  obtain ⟨-, rfl⟩ := (matchFiles_eq_ok_iff hspecs).mp hfound'
  obtain ⟨hwalked, -⟩ := mem_inBuckets_candidates_iff.mp (hsubset (List.mem_singleton_self _))
  have hbases : ∀ spec ∈ ["/p/.hidden/*.ts"], IsBase (base spec) := by
    intro spec hspec
    obtain rfl := List.mem_singleton.mp hspec
    exact ⟨by decide, by decide⟩
  exact not_openBelow_hiddenSource ((exists_mem_walk_append_iff (by decide) hbases
    ⟨by decide, by decide⟩ (by decide +kernel : "/p/.hidden" ∈ walkRoots ["/p/.hidden/*.ts"])
    (by decide +kernel)).mp hwalked)

end TsProject.Selection

import Mathlib.Data.List.Sort
import TsProject.Proofs.Selection.Roots
import TsProject.Proofs.World.Scan

/-!
# Walks from roots that lie apart

The directories that are walked for some specifications are the outermost of their bases, and
whatever the order in which the specifications are given, and however often, the roots are the
same. None of them lies below another (`eq_of_prefix_of_mem_walkRoots`), so that no path is below
two of them: walking one root after the other comes to no path twice.
-/

namespace TsProject.FileSpec

open TsProject.Path (IsNormal trail)
open World (Scanned)

/-- **A specification** in normal form, as it is given or as it is rewritten. -/
def IsSpec (spec : String) : Prop :=
  IsNormal spec ∨ ∃ given, IsNormal given ∧ expand given = .ok spec

theorem IsSpec.isBase {spec : String} (h : IsSpec spec) : IsBase (base spec) := by
  rcases h with hspec | ⟨given, hgiven, hexpand⟩
  · exact isBase_base_of_isNormal hspec
  · exact isBase_base hgiven hexpand

/-! ### The same specifications -/

theorem sortedBases_congr {specs others : List String} (h : ∀ s, s ∈ others ↔ s ∈ specs) :
    sortedBases others = sortedBases specs := by
  refine (pairwise_lt_sortedBases others).eq_of_mem_iff (pairwise_lt_sortedBases specs) ?_
  intro root
  simp only [mem_sortedBases, h]

/-- **Neither order nor repetition** of the specifications matters. -/
theorem walkRoots_congr {specs others : List String} (h : ∀ s, s ∈ others ↔ s ∈ specs) :
    walkRoots others = walkRoots specs :=
  congrArg (List.foldl addRoot []) (sortedBases_congr h)

/-! ### Apart -/

section Apart

variable {specs : List String} (h : ∀ spec ∈ specs, IsBase (base spec))
include h

/-- **No root lies below another.** -/
theorem eq_of_prefix_of_mem_walkRoots {a b : String} (ha : a ∈ walkRoots specs)
    (hb : b ∈ walkRoots specs) (hab : trail a <+: trail b) : a = b := by
  have hbase := forall_isBase_walkRoots h
  have hwithin := (isWithin_iff_trail (hbase a ha) (hbase b hb).isNormal).mpr hab
  obtain ⟨spec, hspec, rfl⟩ := exists_base_eq_of_mem_walkRoots ha
  exact ((mem_walkRoots_iff h).mp hb).2 spec hspec hwithin

/-- **No path lies below two roots.** -/
theorem eq_of_prefix_of_prefix {a b path : String} (ha : a ∈ walkRoots specs)
    (hb : b ∈ walkRoots specs) (hpa : trail a <+: trail path) (hpb : trail b <+: trail path) :
    a = b := by
  -- of two beginnings of one path, one begins the other
  rcases List.prefix_or_prefix_of_prefix hpa hpb with hab | hba
  · exact eq_of_prefix_of_mem_walkRoots h ha hb hab
  · exact (eq_of_prefix_of_mem_walkRoots h hb ha hba).symm

/-- **One root for every base**, above it or the base itself. -/
theorem existsUnique_root {spec : String} (hspec : spec ∈ specs) :
    ∃! root, root ∈ walkRoots specs ∧ trail root <+: trail (base spec) := by
  obtain ⟨root, hroot, hwithin⟩ := exists_isWithin_walkRoots hspec
  have habove := (isWithin_iff_trail (forall_isBase_walkRoots h root hroot)
    (h spec hspec).isNormal).mp hwithin
  exact ⟨root, ⟨hroot, habove⟩, fun other ⟨hother, hotherAbove⟩ =>
    eq_of_prefix_of_prefix h hother hroot hotherAbove habove⟩

/-- **Walking root after root** comes to no path twice. -/
theorem nodup_flatMap_visits {w : World} (hw : w.IsTree) {visits files : String → List String}
    (hscans : ∀ root ∈ walkRoots specs, Scanned w root (visits root) (files root)) :
    ((walkRoots specs).flatMap visits).Nodup := by
  have hnormal := fun root hroot => (forall_isBase_walkRoots h root hroot).isNormal
  rw [List.nodup_flatMap]
  constructor
  · intro root hroot
    exact (hscans root hroot).nodup hw (hnormal root hroot)
  · refine (pairwise_lt_walkRoots specs).imp_of_mem fun {a b} ha hb hlt => ?_
    refine List.disjoint_left.mpr fun visit hvisit hvisit' => ?_
    -- a path that two walks come to is below both roots
    have hbelow := (hscans a ha).prefix_trail hw (hnormal a ha) visit hvisit
    have hbelow' := (hscans b hb).prefix_trail hw (hnormal b hb) visit hvisit'
    obtain rfl := eq_of_prefix_of_prefix h ha hb hbelow.2 hbelow'.2
    exact String.lt_irrefl a hlt

end Apart

/-- **Roots**, specified, for specifications in normal form, rewritten or not. They come in strict
order, each is the base of a specification, every base is one of them or below exactly one, and
none is below another. They depend on nothing but which specifications there are. Walking them in
turn comes to no path twice, and so gives no file twice. -/
theorem walkRoots_spec {specs : List String} (hspecs : ∀ spec ∈ specs, IsSpec spec) :
    (walkRoots specs).Pairwise (· < ·) ∧
    (∀ root ∈ walkRoots specs, ∃ spec ∈ specs, base spec = root) ∧
    (∀ spec ∈ specs, ∃! root, root ∈ walkRoots specs ∧ trail root <+: trail (base spec)) ∧
    (∀ a ∈ walkRoots specs, ∀ b ∈ walkRoots specs, trail a <+: trail b → a = b) ∧
    (∀ others, (∀ spec, spec ∈ others ↔ spec ∈ specs) → walkRoots others = walkRoots specs) ∧
    ∀ w : World, w.IsTree → ∃ visits : String → List String,
      (∀ root ∈ walkRoots specs, Scanned w root (visits root) (w.walk root)) ∧
      ((walkRoots specs).flatMap visits).Nodup ∧ ((walkRoots specs).flatMap w.walk).Nodup := by
  have hbases : ∀ spec ∈ specs, IsBase (base spec) := fun spec hspec => (hspecs spec hspec).isBase
  refine ⟨pairwise_lt_walkRoots specs, fun _ => exists_base_eq_of_mem_walkRoots,
    fun _ => existsUnique_root hbases, fun _ ha _ hb => eq_of_prefix_of_mem_walkRoots hbases ha hb,
    fun _ => walkRoots_congr, fun w hw => ?_⟩
  have hwalks : ∀ root ∈ walkRoots specs, ∃ visits, Scanned w root visits (w.walk root) := by
    intro root hroot
    obtain ⟨visits, hvisits, -⟩ :=
      World.exists_scanned_walk hw (forall_isBase_walkRoots hbases root hroot).isNormal
    exact ⟨visits, hvisits⟩
  choose! visits hvisits using hwalks
  have hnodup := nodup_flatMap_visits hbases hw hvisits
  exact ⟨visits, hvisits, hnodup,
    hnodup.sublist (.flatMap_right _ fun root hroot => (hvisits root hroot).sublist)⟩

/-- Specifications with bases that lie below each other, and one with a base that comes between
them in order. -/
def nested : List String := ["/p/a/b/**/*", "/p/a-b/*.ts", "/p/a/*.ts"]

theorem sortedBases_nested : sortedBases nested = ["/p/a", "/p/a-b", "/p/a/b"] := by
  have hbases : nested.map base = ["/p/a/b", "/p/a-b", "/p/a"] := by decide
  refine (pairwise_lt_sortedBases nested).eq_of_mem_iff (by decide) fun root => ?_
  rw [mem_sortedBases, ← List.mem_map, hbases]
  simp only [List.mem_cons, List.not_mem_nil, or_false]
  tauto

/-- The directory that comes between does not keep the inner one from being left out. -/
theorem walkRoots_nested : (∀ spec ∈ nested, IsSpec spec) ∧
    walkRoots nested = ["/p/a", "/p/a-b"] ∧
    (walkRoots nested).Pairwise (· < ·) ∧
    (∀ root ∈ walkRoots nested, ∃ spec ∈ nested, base spec = root) ∧
    (∀ spec ∈ nested, ∃! root, root ∈ walkRoots nested ∧ trail root <+: trail (base spec)) ∧
    (∀ a ∈ walkRoots nested, ∀ b ∈ walkRoots nested, trail a <+: trail b → a = b) ∧
    (∀ others, (∀ spec, spec ∈ others ↔ spec ∈ nested) → walkRoots others = walkRoots nested) ∧
    ∀ w : World, w.IsTree → ∃ visits : String → List String,
      (∀ root ∈ walkRoots nested, Scanned w root (visits root) (w.walk root)) ∧
      ((walkRoots nested).flatMap visits).Nodup ∧ ((walkRoots nested).flatMap w.walk).Nodup := by
  have hspecs : ∀ spec ∈ nested, IsSpec spec := by
    rw [nested, List.forall_mem_cons]
    exact ⟨.inr ⟨"/p/a/b", by decide, rfl⟩, fun spec hspec => .inl (by revert spec; decide)⟩
  exact ⟨hspecs, (congrArg (List.foldl addRoot []) sortedBases_nested).trans (by decide),
    walkRoots_spec hspecs⟩

end TsProject.FileSpec

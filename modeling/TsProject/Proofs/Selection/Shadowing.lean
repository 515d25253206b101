import Mathlib.Data.List.Nodup
import TsProject.Proofs.Selection.Select

/-!
# What shadowing leaves

A path with a supported extension has one stem and one extension, the longest that it ends with
(`Splits`), and it is shadowed by the paths of its stem and family that have a better rank. A path
that shadows another one is shadowed in turn or by none, so that of the files of a stem and family
one is always left (`exists_isUnshadowed`).

`dropShadowed_spec` says which paths are left, what is left for each path that is dropped, and
that nothing more is dropped the second time. Paths that shadow nothing may be left out before or
after the others are dropped (`dropShadowed_filter`).

The paths to drop can be found without comparing each with each: in a first pass the best rank of
every stem and family is kept (`bestRanks`), in a second one the paths with a worse rank are
dropped, which is the same (`dropShadowed_eq_bestRanks`).
-/

namespace TsProject.Extension

/-! ### Extensions of paths -/

/-- **A path taken apart** into a stem and a supported extension, the longest that it ends with. -/
structure Splits (path : String) (stem : List Char) (e : Extension) : Prop where
  mem : e ∈ all
  toList_eq : path.toList = stem ++ e.text.toList
  longest : ∀ f ∈ all, f.text.toList <:+ path.toList → f.text.length ≤ e.text.length

/-- No two supported extensions have the same text. -/
theorem nodup_texts : (all.map text).Nodup := by decide

/-- Longer extensions are tried first. -/
theorem pairwise_length_all : all.Pairwise fun e f => f.text.length ≤ e.text.length := by decide

/-- Extensions of one text are the same when they are of one length. -/
theorem eq_of_suffix {cs : List Char} {e f : Extension} (he : e ∈ all) (hf : f ∈ all)
    (hsuffix : e.text.toList <:+ cs) (hsuffix' : f.text.toList <:+ cs)
    (hlength : e.text.length = f.text.length) : e = f := by
  have hlists : e.text.toList.length = f.text.toList.length := by
    rw [String.length_toList, String.length_toList, hlength]
  have hchars : e.text.toList = f.text.toList :=
    (List.suffix_of_suffix_length_le hsuffix hsuffix' hlists.le).eq_of_length hlists
  exact List.inj_on_of_nodup_map nodup_texts he hf (String.toList_injective hchars)

variable {path : String}

/-- The extension that is found is the longest: those tried before are no extensions of the path,
and those behind are no longer. -/
theorem longest_of_of? {e : Extension} (h : of? path = some e) :
    e ∈ all ∧ e.text.toList <:+ path.toList ∧
      ∀ f ∈ all, f.text.toList <:+ path.toList → f.text.length ≤ e.text.length := by
  obtain ⟨hends, before, behind, hall, hbefore⟩ := List.find?_eq_some_iff_append.mp h
  refine ⟨List.mem_of_find?_eq_some h, Text.endsWith_iff.mp hends, fun f hf hsuffix => ?_⟩
  have hordered := pairwise_length_all
  rw [hall, List.pairwise_append, List.pairwise_cons] at hordered
  rw [hall, List.mem_append, List.mem_cons] at hf
  rcases hf with hf | rfl | hf
  · have hnot : ¬ Text.endsWith path f.text := by simpa using hbefore f hf
    exact absurd (Text.endsWith_iff.mpr hsuffix) hnot
  · exact Nat.le_refl _
  · exact hordered.2.1.1 f hf

/-- **The extension of a path** is the longest supported one that it ends with. -/
theorem of?_eq_some_iff {e : Extension} :
    of? path = some e ↔ e ∈ all ∧ e.text.toList <:+ path.toList ∧
      ∀ f ∈ all, f.text.toList <:+ path.toList → f.text.length ≤ e.text.length := by
  constructor
  · exact longest_of_of?
  · rintro ⟨hmem, hsuffix, hlongest⟩
    have hends : (of? path).isSome :=
      List.find?_isSome.mpr ⟨e, hmem, Text.endsWith_iff.mpr hsuffix⟩
    obtain ⟨f, hf⟩ := Option.isSome_iff_exists.mp hends
    obtain ⟨hmem', hsuffix', hlongest'⟩ := longest_of_of? hf
    have hlength := Nat.le_antisymm (hlongest' e hmem hsuffix) (hlongest f hmem' hsuffix')
    rw [hf, eq_of_suffix hmem hmem' hsuffix hsuffix' hlength]

/-- **Taking a path apart** is finding its extension and cutting that away. -/
theorem splits_iff {stem : List Char} {e : Extension} :
    Splits path stem e ↔ of? path = some e ∧ e.stem path = stem := by
  have hcut : ∀ front, path.toList = front ++ e.text.toList → e.stem path = front := by
    intro front hpath
    have hlengths := congrArg List.length hpath
    rw [List.length_append, String.length_toList, String.length_toList] at hlengths
    have hlength : path.length - e.text.length = front.length := by omega
    rw [Extension.stem, hpath, hlength, List.take_left']
    rfl
  constructor
  · intro h
    have hsuffix : e.text.toList <:+ path.toList := ⟨stem, h.toList_eq.symm⟩
    exact ⟨of?_eq_some_iff.mpr ⟨h.mem, hsuffix, h.longest⟩, hcut stem h.toList_eq⟩
  · rintro ⟨hfound, rfl⟩
    obtain ⟨hmem, ⟨front, hpath⟩, hlongest⟩ := of?_eq_some_iff.mp hfound
    exact ⟨hmem, by rw [hcut front hpath.symm, hpath], hlongest⟩

theorem Splits.unique {stem stem' : List Char} {e f : Extension} (h : Splits path stem e)
    (h' : Splits path stem' f) : stem = stem' ∧ e = f := by
  obtain ⟨hfound, rfl⟩ := splits_iff.mp h
  obtain ⟨hfound', rfl⟩ := splits_iff.mp h'
  obtain rfl := Option.some.inj (hfound.symm.trans hfound')
  exact ⟨rfl, rfl⟩

theorem shadows_iff_splits {p q : String} : Shadows p q ↔
    ∃ stem e f, Splits p stem e ∧ Splits q stem f ∧ e.family = f.family ∧ e.rank < f.rank := by
  constructor
  · rintro ⟨e, f, hp, hq, hstem, hfamily, hrank⟩
    exact ⟨_, e, f, splits_iff.mpr ⟨hp, rfl⟩, splits_iff.mpr ⟨hq, hstem.symm⟩, hfamily, hrank⟩
  · rintro ⟨stem, e, f, hp, hq, hfamily, hrank⟩
    obtain ⟨hfound, rfl⟩ := splits_iff.mp hp
    obtain ⟨hfound', hstem⟩ := splits_iff.mp hq
    exact ⟨e, f, hfound, hfound', hstem.symm, hfamily, hrank⟩

/-! ### Paths that none shadows -/

/-- **None of the paths shadows this one**: those of its stem and its family have no better rank.
A path without a supported extension has neither stem nor family. -/
def IsUnshadowed (paths : List String) (path : String) : Prop :=
  ∀ stem e, Splits path stem e → ∀ other ∈ paths, ∀ f, Splits other stem f →
    f.family = e.family → e.rank ≤ f.rank

variable {paths literal wildcard : List String}

theorem isUnshadowed_iff : IsUnshadowed paths path ↔ ∀ other ∈ paths, ¬ Shadows other path := by
  constructor
  · intro h other hother hshadows
    obtain ⟨stem, f, e, hsplits, hsplits', hfamily, hrank⟩ := shadows_iff_splits.mp hshadows
    have hle := h stem e hsplits' other hother f hsplits hfamily
    omega
  · intro h stem e hsplits other hother f hsplits' hfamily
    by_contra hrank
    have hlt : f.rank < e.rank := by omega
    exact h other hother (shadows_iff_splits.mpr ⟨stem, f, e, hsplits', hsplits, hfamily, hlt⟩)

/-- Among fewer paths, none shadows this one either. -/
theorem IsUnshadowed.of_subset {fewer : List String}
    (h : IsUnshadowed (literal ++ wildcard) path) (hsub : fewer ⊆ wildcard) :
    IsUnshadowed (literal ++ fewer) path := by
  intro stem e hsplits other hother
  have hmem : other ∈ literal ++ wildcard :=
    List.mem_append.mpr ((List.mem_append.mp hother).imp_right fun hother => hsub hother)
  exact h stem e hsplits other hmem

/-- **A stem and family** that occur have a best file: one that none shadows. -/
theorem exists_isUnshadowed {stem : List Char} {e : Extension} (hmem : path ∈ paths)
    (hsplits : Splits path stem e) : ∃ best ∈ paths, ∃ f, Splits best stem f ∧
      f.family = e.family ∧ IsUnshadowed paths best := by
  -- a path that shadows the last one has a smaller rank
  induction hrank : e.rank using Nat.strongRecOn generalizing path e with
  | ind rank ih =>
    subst hrank
    by_cases hbest : IsUnshadowed paths path
    · exact ⟨path, hmem, e, hsplits, rfl, hbest⟩
    · rw [isUnshadowed_iff] at hbest
      push Not at hbest
      obtain ⟨other, hother, hshadows⟩ := hbest
      obtain ⟨stem', f, e', hsplits', hsplits'', hfamily, hlt⟩ := shadows_iff_splits.mp hshadows
      obtain ⟨rfl, rfl⟩ := hsplits.unique hsplits''
      obtain ⟨best, hmem', g, hbest, hfamily', hunshadowed⟩ := ih f.rank hlt hother hsplits' rfl
      exact ⟨best, hmem', g, hbest, hfamily'.trans hfamily, hunshadowed⟩

/-! ### What is left -/

theorem not_any_shadows_iff :
    (!paths.any fun other => shadows other path) = true ↔ IsUnshadowed paths path := by
  simp only [isUnshadowed_iff, Bool.not_eq_true', List.any_eq_false, shadows_iff]

theorem mem_dropShadowed_iff : path ∈ dropShadowed literal wildcard ↔
    path ∈ wildcard ∧ IsUnshadowed (literal ++ wildcard) path := by
  rw [dropShadowed, List.mem_filter, not_any_shadows_iff]

/-- A path that none shadows is left where it is. -/
theorem IsUnshadowed.mem_or_mem (h : IsUnshadowed (literal ++ wildcard) path)
    (hmem : path ∈ literal ++ wildcard) :
    path ∈ literal ∨ path ∈ dropShadowed literal wildcard := by
  rcases List.mem_append.mp hmem with hmem | hmem
  · exact .inl hmem
  · exact .inr (mem_dropShadowed_iff.mpr ⟨hmem, h⟩)

/-- **For a path that is dropped** the best one of its stem and family is left. -/
theorem exists_best_of_dropped (hmem : path ∈ wildcard)
    (hdropped : path ∉ dropShadowed literal wildcard) : ∃ stem e best f, Splits path stem e ∧
      (best ∈ literal ∨ best ∈ dropShadowed literal wildcard) ∧ Splits best stem f ∧
      f.family = e.family ∧ f.rank < e.rank ∧ IsUnshadowed (literal ++ wildcard) best := by
  have hshadowed : ¬ IsUnshadowed (literal ++ wildcard) path := fun h =>
    hdropped (mem_dropShadowed_iff.mpr ⟨hmem, h⟩)
  rw [isUnshadowed_iff] at hshadowed
  push Not at hshadowed
  obtain ⟨other, hother, hshadows⟩ := hshadowed
  obtain ⟨stem, g, e, hsplits', hsplits, hfamily, hrank⟩ := shadows_iff_splits.mp hshadows
  obtain ⟨best, hbest, f, hsplits'', hfamily', hunshadowed⟩ := exists_isUnshadowed hother hsplits'
  have hle : f.rank ≤ g.rank := hunshadowed stem f hsplits'' other hother g hsplits' hfamily'.symm
  exact ⟨stem, e, best, f, hsplits, hunshadowed.mem_or_mem hbest, hsplits'',
    hfamily'.trans hfamily, hle.trans_lt hrank, hunshadowed⟩

/-- **Paths that shadow nothing** may be left out before the others are dropped or after. -/
theorem dropShadowed_filter {keep : String → Bool}
    (h : ∀ p ∈ wildcard, keep p = false → ∀ q, ¬ Shadows p q) :
    dropShadowed literal (wildcard.filter keep) = (dropShadowed literal wildcard).filter keep := by
  have hshadows : ∀ q, IsUnshadowed (literal ++ wildcard.filter keep) q ↔
      IsUnshadowed (literal ++ wildcard) q := by
    intro q
    constructor
    · intro hq
      rw [isUnshadowed_iff] at hq ⊢
      intro p hp hpq
      rcases List.mem_append.mp hp with hp | hp
      · exact hq p (List.mem_append_left _ hp) hpq
      · have hkeep : keep p = true := by
          by_contra hnot
          exact h p hp (Bool.eq_false_of_not_eq_true hnot) q hpq
        exact hq p (List.mem_append_right _ (List.mem_filter.mpr ⟨hp, hkeep⟩)) hpq
    · exact fun hq => hq.of_subset (List.filter_subset_self wildcard)
  have htests : ∀ q, (!(literal ++ wildcard.filter keep).any fun p => shadows p q) =
      !(literal ++ wildcard).any fun p => shadows p q := fun q => by
    rw [Bool.eq_iff_iff, not_any_shadows_iff, not_any_shadows_iff, hshadows]
  rw [dropShadowed, dropShadowed, funext htests, List.filter_comm]

/-! ### Best ranks, kept in one pass -/

/-- The stem and the family of a path with this extension. -/
def key (e : Extension) (path : String) : List Char × ExtensionFamily := (e.stem path, e.family)

/-- The best ranks, one more path being taken into account. -/
def noteRank (best : List Char × ExtensionFamily → Option Nat) (path : String) :
    List Char × ExtensionFamily → Option Nat :=
  match of? path with
  | none => best
  | some e =>
    Function.update best (e.key path) (some (min e.rank ((best (e.key path)).getD e.rank)))

/-- **The best rank** of each stem and family among some paths, one path after the other. -/
def bestRanks (paths : List String) : List Char × ExtensionFamily → Option Nat :=
  paths.foldl noteRank fun _ => none

/-- The path has a worse rank than the best one of its stem and family. -/
def isOutranked (best : List Char × ExtensionFamily → Option Nat) (path : String) : Bool :=
  match of? path with
  | none => false
  | some e => (best (e.key path)).any (· < e.rank)

section Ranks

variable {best : List Char × ExtensionFamily → Option Nat} {n : Nat}
  {k : List Char × ExtensionFamily}

theorem any_noteRank_iff : (noteRank best path k).any (· < n) ↔ (best k).any (· < n) ∨
    ∃ e, of? path = some e ∧ e.key path = k ∧ e.rank < n := by
  rw [noteRank]
  cases of? path with
  | none => simp
  | some e =>
    by_cases hk : k = e.key path
    · subst hk
      dsimp only
      rw [Function.update_self]
      cases best (e.key path) with
      | none => simp
      | some r => simp [or_comm]
    · simp [hk, Ne.symm hk]

/-- **A rank is worse than the best one** exactly if it is worse than that of some path. -/
theorem any_foldl_noteRank_iff : (paths.foldl noteRank best k).any (· < n) ↔
    (best k).any (· < n) ∨
      ∃ other ∈ paths, ∃ e, of? other = some e ∧ e.key other = k ∧ e.rank < n := by
  induction paths generalizing best with
  | nil => simp
  | cons first paths ih =>
    rw [List.foldl_cons, ih, any_noteRank_iff, or_assoc]
    simp only [List.mem_cons, exists_eq_or_imp]

theorem any_bestRanks_iff : (bestRanks paths k).any (· < n) ↔
    ∃ other ∈ paths, ∃ e, of? other = some e ∧ e.key other = k ∧ e.rank < n := by
  rw [bestRanks, any_foldl_noteRank_iff]
  simp

/-- Each stem and family that occurs has a best rank. -/
theorem isSome_bestRanks {e : Extension} (hmem : path ∈ paths) (h : of? path = some e) :
    (bestRanks paths (e.key path)).isSome := by
  have hany : (bestRanks paths (e.key path)).any (· < e.rank + 1) :=
    any_bestRanks_iff.mpr ⟨path, hmem, e, h, rfl, Nat.lt_succ_self e.rank⟩
  obtain ⟨r, hr, -⟩ := (Option.any_eq_true _ _).mp hany
  exact Option.isSome_of_mem hr

/-- **To have a worse rank** than the best one is to be shadowed. -/
theorem isOutranked_bestRanks_iff :
    isOutranked (bestRanks paths) path ↔ ∃ other ∈ paths, Shadows other path := by
  rw [isOutranked]
  cases hpath : of? path with
  | none =>
    refine iff_of_false Bool.false_ne_true ?_
    rintro ⟨other, -, e, f, -, hf, -⟩
    cases hpath.symm.trans hf
  | some f =>
    dsimp only
    rw [any_bestRanks_iff]
    refine exists_congr fun other => and_congr_right fun _ => ?_
    constructor
    · rintro ⟨e, he, hkey, hrank⟩
      obtain ⟨hstem, hfamily⟩ := Prod.mk.inj hkey
      exact ⟨e, f, he, hpath, hstem, hfamily, hrank⟩
    · rintro ⟨e, f', he, hf, hstem, hfamily, hrank⟩
      obtain rfl := Option.some.inj (hpath.symm.trans hf)
      exact ⟨e, he, Prod.ext hstem hfamily, hrank⟩

end Ranks

/-- **Two passes** leave the same paths: one that keeps the best ranks, and one that drops the
paths with worse ones. -/
theorem dropShadowed_eq_bestRanks (literal wildcard : List String) :
    dropShadowed literal wildcard =
      wildcard.filter fun path => !isOutranked (bestRanks (literal ++ wildcard)) path := by
  rw [dropShadowed]
  refine List.filter_congr fun path _ => congrArg (!·) ?_
  rw [Bool.eq_iff_iff, isOutranked_bestRanks_iff]
  simp only [List.any_eq_true, shadows_iff]

open Classical in
/-- **What shadowing leaves**, specified: in their order, the paths that no path of either list
shadows. Where a path is dropped, one of its stem and family with the best rank of all is left,
and nothing more is dropped the second time. -/
theorem dropShadowed_spec (literal wildcard : List String) :
    dropShadowed literal wildcard =
      wildcard.filter (fun path => IsUnshadowed (literal ++ wildcard) path) ∧
    (∀ path ∈ wildcard, path ∉ dropShadowed literal wildcard → ∃ stem e best f,
      Splits path stem e ∧ (best ∈ literal ∨ best ∈ dropShadowed literal wildcard) ∧
      Splits best stem f ∧ f.family = e.family ∧ f.rank < e.rank ∧
      IsUnshadowed (literal ++ wildcard) best) ∧
    dropShadowed literal (dropShadowed literal wildcard) = dropShadowed literal wildcard := by
  refine ⟨?_, fun path => exists_best_of_dropped, ?_⟩
  · rw [dropShadowed]
    refine List.filter_congr fun path _ => ?_
    rw [Bool.eq_iff_iff, not_any_shadows_iff, decide_eq_true_iff]
  · refine List.filter_eq_self.mpr fun path hpath => ?_
    -- there are fewer paths left that could shadow one
    obtain ⟨-, hunshadowed⟩ := mem_dropShadowed_iff.mp hpath
    have hsub : dropShadowed literal wildcard ⊆ wildcard := fun path hpath =>
      (mem_dropShadowed_iff.mp hpath).1
    exact not_any_shadows_iff.mpr (hunshadowed.of_subset hsub)

/-- A source shadows the declaration that shadows the script, and a text after the stem makes
another stem of it. -/
example : dropShadowed ["/p/b.ts"] ["/p/a.js", "/p/a.d.ts", "/p/a.tsx", "/p/b.d.ts", "/p/a.x.js"] =
    ["/p/a.tsx", "/p/a.x.js"] := by decide

end TsProject.Extension

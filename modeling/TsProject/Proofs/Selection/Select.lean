import TsProject.Proofs.Selection.Roots
import TsProject.Proofs.World.Levels
import TsProject.Selection.Select

/-!
# What is selected, and in which order

`Selects` describes the selection of a configuration without the steps that make it: the files
named, each once, and then the files found, which are those that satisfy `IsFound` and that no
selected or found file shadows. They are ordered by `Precedes`: by the first include
specification that takes them, and below that by where the walk meets them.

`select_spec` says that the specifications lead to such a selection, except where a directory to
walk is no path at all: then nothing is selected.
-/

namespace TsProject

/-- A better file of the same stem and family. -/
def Extension.Shadows (p q : String) : Prop :=
  ∃ e f, of? p = some e ∧ of? q = some f ∧ e.stem p = f.stem q ∧ e.family = f.family ∧
    e.rank < f.rank

theorem Extension.shadows_iff {p q : String} : shadows p q ↔ Shadows p q := by
  unfold shadows Shadows
  cases of? p <;> cases of? q <;> simp [and_assoc]

namespace Selection

/-! ### The description -/

/-- A walked file with an allowed extension that an include specification takes, that no exclude
specification takes and that is not named. -/
structure IsFound (walked specs exclude extensions literal : List String) (path : String) :
    Prop where
  walked : path ∈ walked
  extension : hasExtension extensions path
  included : ∃ spec ∈ specs, FileSpec.accepts false spec path
  notExcluded : ∀ spec ∈ exclude, ¬ FileSpec.accepts true spec path
  notNamed : path ∉ literal

/-- The place of the first include specification that takes a path. -/
def firstSpec (specs : List String) (path : String) : Nat :=
  specs.findIdx fun spec => FileSpec.accepts false spec path

/-- The order of found files: by the first specification that takes them, then by the walk. -/
def Precedes (walked specs : List String) (p q : String) : Prop :=
  firstSpec specs p < firstSpec specs q ∨
    firstSpec specs p = firstSpec specs q ∧ walked.idxOf p < walked.idxOf q

/-- **The selection of a configuration**, described. -/
structure Selects (walked specs exclude extensions : List String) (files : Option (List String))
    (s : Selection) : Prop where
  literal_eq : s.literal = ((files.getD []).map Path.normalize).eraseDups
  mem_found : ∀ path, path ∈ s.found ↔
    IsFound walked specs exclude extensions s.literal path ∧
      ∀ other, other ∈ s.literal ∨ IsFound walked specs exclude extensions s.literal other →
        ¬ Extension.Shadows other path
  ordered : s.found.Pairwise (Precedes walked specs)
  nodup : s.files.Nodup

theorem Precedes.asymm {walked specs : List String} {p q : String}
    (h : Precedes walked specs p q) : ¬ Precedes walked specs q p := by
  unfold Precedes at *
  omega

/-- **There is one selection** of what a walk has met. -/
theorem Selects.unique {walked specs exclude extensions : List String}
    {files : Option (List String)} {s t : Selection}
    (hs : Selects walked specs exclude extensions files s)
    (ht : Selects walked specs exclude extensions files t) : s = t := by
  obtain ⟨literal, found⟩ := s
  obtain ⟨literal', found'⟩ := t
  obtain rfl : literal = literal' := hs.literal_eq.trans ht.literal_eq.symm
  have hnodup := (List.nodup_append.mp hs.nodup).2.1
  have hnodup' := (List.nodup_append.mp ht.nodup).2.1
  -- the found files are the same ones, and an asymmetric order has one arrangement of them
  have hperm : found.Perm found' := (List.perm_ext_iff_of_nodup hnodup hnodup').mpr fun path =>
    (hs.mem_found path).trans (ht.mem_found path).symm
  have hasymm : ∀ p q, p ∈ found → q ∈ found' → Precedes walked specs p q →
      Precedes walked specs q p → p = q := fun p q _ _ hpq hqp => absurd hqp hpq.asymm
  rw [hperm.eq_of_pairwise hasymm hs.ordered ht.ordered]

/-! ### Candidates and buckets -/

theorem mem_candidates {w : World} {roots exclude extensions : List String} {path : String} :
    path ∈ candidates w roots exclude extensions ↔ path ∈ roots.flatMap w.walk ∧
      hasExtension extensions path ∧ ∀ spec ∈ exclude, ¬ FileSpec.accepts true spec path := by
  simp [candidates, List.mem_filter, List.mem_eraseDups, and_assoc]

/-- Candidates come in the order of the walk. -/
theorem pairwise_idxOf_candidates (w : World) (roots exclude extensions : List String) :
    (candidates w roots exclude extensions).Pairwise fun p q =>
      (roots.flatMap w.walk).idxOf p < (roots.flatMap w.walk).idxOf q := by
  refine List.Pairwise.filter _ ?_
  refine (pairwise_idxOf_eraseDups _).imp_of_mem fun {p q} hp hq hpq => ?_
  exact idxOf_lt_of_filter (List.mem_filter.mp (List.mem_eraseDups.mp hp)).2
    (List.mem_filter.mp (List.mem_eraseDups.mp hq)).2 hpq

theorem bucket?_eq_some_iff {specs : List String} {path : String} {i : Nat} :
    bucket? specs path = some i ↔ i < specs.length ∧ firstSpec specs path = i := by
  rw [bucket?, firstSpec, List.findIdx?_eq_some_iff_findIdx_eq]

theorem mem_inBuckets {specs paths : List String} {path : String} :
    path ∈ inBuckets specs paths ↔
      path ∈ paths ∧ ∃ spec ∈ specs, FileSpec.accepts false spec path := by
  have hfirst : firstSpec specs path < specs.length ↔
      ∃ spec ∈ specs, FileSpec.accepts false spec path := List.findIdx_lt_length
  simp only [inBuckets, List.mem_flatMap, List.mem_range, List.mem_filter, decide_eq_true_eq,
    bucket?_eq_some_iff]
  rw [← hfirst]
  constructor
  · rintro ⟨i, -, hpath, hi, rfl⟩
    exact ⟨hpath, hi⟩
  · rintro ⟨hpath, hi⟩
    exact ⟨_, hi, hpath, hi, rfl⟩

/-- Putting paths into buckets orders them by bucket and keeps the order inside each. -/
theorem pairwise_inBuckets {specs paths : List String} {r : String → String → Prop}
    (h : paths.Pairwise r) : (inBuckets specs paths).Pairwise fun p q =>
      firstSpec specs p < firstSpec specs q ∨ firstSpec specs p = firstSpec specs q ∧ r p q := by
  have hfirst : ∀ i path, path ∈ paths.filter (fun path => bucket? specs path = some i) →
      firstSpec specs path = i := by
    intro i path hpath
    exact (bucket?_eq_some_iff.mp (by simpa using (List.mem_filter.mp hpath).2)).2
  rw [inBuckets, List.pairwise_flatMap]
  constructor
  · intro i _
    refine (List.Pairwise.filter _ h).imp_of_mem fun {p q} hp hq hpq => Or.inr ⟨?_, hpq⟩
    rw [hfirst i p hp, hfirst i q hq]
  · refine List.pairwise_lt_range.imp fun {i j} hij p hp q hq => Or.inl ?_
    rwa [hfirst i p hp, hfirst j q hq]

/-! ### The selection -/

theorem mem_dropShadowed {literal wildcard : List String} {path : String} :
    path ∈ Extension.dropShadowed literal wildcard ↔ path ∈ wildcard ∧
      ∀ other, other ∈ literal ∨ other ∈ wildcard → ¬ Extension.Shadows other path := by
  simp only [Extension.dropShadowed, List.mem_filter, Bool.not_eq_true', List.any_eq_false,
    List.mem_append, Extension.shadows_iff]

variable {w : World} {files : Option (List String)} {specs exclude : List String}
variable {allowScripts : Bool}

/-- Valid specifications are expanded one by one. -/
theorem mapM_expand_eq {incl : List String}
    (h : incl.map FileSpec.expand = specs.map .ok) :
    (incl.mapM fun spec => (FileSpec.expand spec).mapError SelectError.badSpec) = .ok specs := by
  induction incl generalizing specs with
  | nil =>
    obtain rfl : specs = [] := by simpa using h.symm
    rfl
  | cons spec incl ih =>
    cases specs with
    | nil => simp at h
    | cons full specs =>
      obtain ⟨hfull, hspecs⟩ := List.cons_eq_cons.mp (by simpa using h)
      rw [List.mapM_cons, hfull, ih hspecs]
      rfl

/-- The extensions of selected files. -/
def allowed (allowScripts : Bool) : List String :=
  Extension.sources ++ if allowScripts then Extension.scripts else []

theorem matchFiles_eq (w : World) {incl : List String} (exclude extensions : List String)
    (hspecs : incl.map FileSpec.expand = specs.map .ok) :
    matchFiles w incl exclude extensions =
      if ∃ root ∈ FileSpec.walkRoots specs, '\x00' ∈ root.toList then .error .embeddedNull
      else .ok (inBuckets specs (candidates w (FileSpec.walkRoots specs) exclude extensions)) := by
  rw [matchFiles, mapM_expand_eq hspecs]
  simp only [bind, Except.bind, List.any_eq_true, List.contains_iff_mem]

/-- Specifications are all valid, or one that is not is reported. -/
theorem exists_expand_or (incl : List String) :
    (∃ specs : List String, incl.map FileSpec.expand = specs.map .ok) ∨
      ∃ e, (incl.mapM fun spec => (FileSpec.expand spec).mapError SelectError.badSpec) =
        .error (.badSpec e) := by
  induction incl with
  | nil => exact .inl ⟨[], rfl⟩
  | cons spec incl ih =>
    cases hspec : FileSpec.expand spec with
    | error e => exact .inr ⟨e, by rw [List.mapM_cons, hspec]; rfl⟩
    | ok full =>
      rcases ih with ⟨specs, hspecs⟩ | ⟨e, he⟩
      · exact .inl ⟨full :: specs, by rw [List.map_cons, List.map_cons, hspec, hspecs]⟩
      · exact .inr ⟨e, by rw [List.mapM_cons, hspec, he]; rfl⟩

/-- **Selecting answers** unless the specifications are valid and a root holds a null
character. -/
theorem select_ne_embeddedNull_iff {w : World} {files : Option (List String)}
    {incl exclude : List String} {allowScripts : Bool} :
    select w files incl exclude allowScripts ≠ .error .embeddedNull ↔
      ∀ specs : List String, incl.map FileSpec.expand = specs.map .ok →
        ∀ root ∈ FileSpec.walkRoots specs, '\x00' ∉ root.toList := by
  rcases exists_expand_or incl with ⟨specs, hspecs⟩ | ⟨e, he⟩
  · have hmatch := matchFiles_eq w exclude (allowed allowScripts) hspecs
    have hunique : ∀ other : List String, incl.map FileSpec.expand = other.map .ok →
        other = specs := fun other hother =>
      List.map_injective_iff.mpr (fun _ _ => Except.ok.inj) (hother.symm.trans hspecs)
    rw [select, ← allowed, hmatch]
    split_ifs with hnull
    · refine iff_of_false (fun h => h rfl) fun h => ?_
      obtain ⟨root, hroot, hnull⟩ := hnull
      exact h specs hspecs root hroot hnull
    · refine iff_of_true (by rintro ⟨⟩) fun other hother root hroot hmem => ?_
      exact hnull ⟨root, hunique other hother ▸ hroot, hmem⟩
  · refine iff_of_true ?_ fun specs hspecs => ?_
    · rw [select, matchFiles, he]
      rintro ⟨⟩
    · cases (mapM_expand_eq hspecs).symm.trans he

/-- The matched files that are not named. -/
def fresh (w : World) (roots specs exclude extensions literal : List String) : List String :=
  (inBuckets specs (candidates w roots exclude extensions)).filter fun path =>
    !literal.contains path

section Fresh

variable {roots extensions literal : List String}

/-- Before shadowing, what is left is exactly what is found. -/
theorem mem_fresh {path : String} : path ∈ fresh w roots specs exclude extensions literal ↔
    IsFound (roots.flatMap w.walk) specs exclude extensions literal path := by
  rw [fresh, List.mem_filter, mem_inBuckets, mem_candidates]
  constructor
  · rintro ⟨⟨⟨hwalked, hextension, hexclude⟩, hincluded⟩, hliteral⟩
    exact ⟨hwalked, hextension, hincluded, hexclude, by simpa using hliteral⟩
  · rintro ⟨hwalked, hextension, hincluded, hexclude, hliteral⟩
    exact ⟨⟨⟨hwalked, hextension, hexclude⟩, hincluded⟩, by simpa using hliteral⟩

theorem pairwise_fresh : (fresh w roots specs exclude extensions literal).Pairwise
    (Precedes (roots.flatMap w.walk) specs) :=
  (pairwise_inBuckets (pairwise_idxOf_candidates w roots exclude extensions)).filter _

theorem mem_dropShadowed_fresh {path : String} :
    path ∈ Extension.dropShadowed literal (fresh w roots specs exclude extensions literal) ↔
      IsFound (roots.flatMap w.walk) specs exclude extensions literal path ∧
        ∀ other, other ∈ literal ∨
          IsFound (roots.flatMap w.walk) specs exclude extensions literal other →
            ¬ Extension.Shadows other path := by
  rw [mem_dropShadowed, mem_fresh]
  simp only [mem_fresh]

end Fresh

/-- What the steps of `select` make of matched files is a selection. -/
theorem selects_dropShadowed (w : World) (roots specs exclude extensions : List String)
    (files : Option (List String)) :
    let literal := ((files.getD []).map Path.normalize).eraseDups
    Selects (roots.flatMap w.walk) specs exclude extensions files ⟨literal,
      Extension.dropShadowed literal (fresh w roots specs exclude extensions literal)⟩ := by
  intro literal
  have hordered : (Extension.dropShadowed literal
      (fresh w roots specs exclude extensions literal)).Pairwise
        (Precedes (roots.flatMap w.walk) specs) := pairwise_fresh.filter _
  refine ⟨rfl, fun path => mem_dropShadowed_fresh, hordered, ?_⟩
  refine List.nodup_append.mpr ⟨nodup_eraseDups _, ?_, ?_⟩
  · refine hordered.imp fun {p q} hpq heq => ?_
    subst heq
    exact hpq.asymm hpq
  · rintro p hp q hq rfl
    exact (mem_dropShadowed_fresh.mp hq).1.notNamed hp

/-- **A selection** of valid specifications is the one that `Selects` describes. -/
theorem selects_of_select {w : World} {files : Option (List String)}
    {incl specs exclude : List String} {allowScripts : Bool} {s : Selection}
    (hspecs : incl.map FileSpec.expand = specs.map .ok)
    (h : select w files incl exclude allowScripts = .ok s) :
    Selects ((FileSpec.walkRoots specs).flatMap w.walk) specs exclude (allowed allowScripts)
      files s := by
  rw [select, ← allowed, matchFiles_eq w exclude _ hspecs] at h
  split_ifs at h
  · cases h
  · obtain rfl := Except.ok.inj h
    exact selects_dropShadowed w _ specs exclude _ files

/-- **What a selection consists of**, when there is one: the specifications are valid, the files
named come first, and every other one has been found. -/
theorem isFound_of_select {w : World} {files : Option (List String)} {incl exclude : List String}
    {allowScripts : Bool} {s : Selection}
    (h : select w files incl exclude allowScripts = .ok s) :
    s.literal = ((files.getD []).map Path.normalize).eraseDups ∧
      ∃ specs : List String, incl.map FileSpec.expand = specs.map .ok ∧
        ∀ path ∈ s.found, IsFound ((FileSpec.walkRoots specs).flatMap w.walk) specs exclude
          (allowed allowScripts) s.literal path := by
  rcases exists_expand_or incl with ⟨specs, hspecs⟩ | ⟨e, he⟩
  · have hselects := selects_of_select hspecs h
    exact ⟨hselects.literal_eq, specs, hspecs, fun path hpath =>
      ((hselects.mem_found path).mp hpath).1⟩
  · rw [select, matchFiles, he] at h
    cases h

/-- **Selecting files**, specified. Valid specifications lead to the selection that `Selects`
describes, of what walks of their roots in order meet, unless a root holds a null character:
then nothing is selected. -/
theorem select_spec (w : World) (files : Option (List String)) {incl specs : List String}
    (exclude : List String) (allowScripts : Bool)
    (hspecs : incl.map FileSpec.expand = specs.map .ok) :
    if ∃ root ∈ FileSpec.walkRoots specs, '\x00' ∈ root.toList then
      select w files incl exclude allowScripts = .error .embeddedNull
    else ∃ s walked, select w files incl exclude allowScripts = .ok s ∧
      w.WalkedAll (FileSpec.walkRoots specs) walked ∧
      (FileSpec.walkRoots specs).Pairwise (· < ·) ∧
      (∀ dir path, (w.listing dir path).Pairwise fun a b => a.name ≤ b.name) ∧
      Selects walked specs exclude (allowed allowScripts) files s := by
  have hmatch := matchFiles_eq w exclude (allowed allowScripts) hspecs
  split
  · rename_i hnull
    rw [if_pos hnull] at hmatch
    rw [select, ← allowed, hmatch]
    rfl
  · rename_i hnull
    rw [if_neg hnull] at hmatch
    refine ⟨_, _, ?_, World.walkedAll_flatMap_walk w _, FileSpec.pairwise_lt_walkRoots specs,
      World.pairwise_name_listing w, selects_dropShadowed w _ specs exclude _ files⟩
    rw [select, ← allowed, hmatch]
    rfl

/-- A specification whose root is a path leads to a selection. -/
theorem exists_selects_of_plain_root :
    ["/p/*.ts"].map FileSpec.expand = ["/p/*.ts"].map .ok ∧
    ∃ s walked, select {} (some ["/p/../b.ts"]) ["/p/*.ts"] [] false = .ok s ∧
      World.WalkedAll {} (FileSpec.walkRoots ["/p/*.ts"]) walked ∧
      Selects walked ["/p/*.ts"] [] (allowed false) (some ["/p/../b.ts"]) s := by
  have hspecs : ["/p/*.ts"].map FileSpec.expand = ["/p/*.ts"].map .ok := by decide
  have hnull : ¬ ∃ root ∈ FileSpec.walkRoots ["/p/*.ts"], '\x00' ∈ root.toList := by
    rintro ⟨root, hroot, hnull⟩
    obtain ⟨spec, hspec, rfl⟩ := FileSpec.exists_base_eq_of_mem_walkRoots hroot
    obtain rfl := List.mem_singleton.mp hspec
    exact absurd hnull (by decide)
  have h := select_spec {} (some ["/p/../b.ts"]) [] false hspecs
  rw [if_neg hnull] at h
  obtain ⟨s, walked, hselect, hwalked, -, -, hs⟩ := h
  exact ⟨hspecs, s, walked, hselect, hwalked, hs⟩

/-- Valid specifications do not always lead to a selection: no directory has a name that holds
a null character, and still a walk of it fails. -/
theorem not_forall_exists_select :
    ¬ ∀ (w : World) (files : Option (List String)) (incl specs exclude : List String)
        (allowScripts : Bool), incl.map FileSpec.expand = specs.map .ok →
      ∃ s, select w files incl exclude allowScripts = .ok s := by
  intro h
  have hspecs : ["/a\x00/*.ts"].map FileSpec.expand = ["/a\x00/*.ts"].map .ok := by decide
  obtain ⟨s, hs⟩ := h {} none ["/a\x00/*.ts"] ["/a\x00/*.ts"] [] false hspecs
  obtain ⟨root, hroot, -⟩ :=
    FileSpec.exists_isWithin_walkRoots (List.mem_singleton_self "/a\x00/*.ts")
  have hnull : ∃ root ∈ FileSpec.walkRoots ["/a\x00/*.ts"], '\x00' ∈ root.toList := by
    obtain ⟨spec, hspec, heq⟩ := FileSpec.exists_base_eq_of_mem_walkRoots hroot
    obtain rfl := List.mem_singleton.mp hspec
    exact ⟨root, hroot, heq ▸ by decide⟩
  rw [select, matchFiles_eq _ _ _ hspecs, if_pos hnull] at hs
  cases hs

end Selection

end TsProject

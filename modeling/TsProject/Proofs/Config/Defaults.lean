import TsProject.Proofs.Config.Outputs
import TsProject.Proofs.Path.Relative
import TsProject.Proofs.Selection.Coverage
import TsProject.Proofs.Selection.Inside

/-!
# What is selected by default

Where none of its files declares inputs, a configuration includes everything below its directory:
the path of the directory with `**/*` behind it, read as a specification. The names of the
directory are part of that specification. Those in front of the first one with a wildcard stand
for themselves, so that every input file lies behind them; a name with a wildcard stands for
others as well. A default selection therefore stays inside the directory as long as the path of
the directory holds no wildcard (`isWithin_baseDir_of_mem_inputFiles`), and may leave it otherwise
(`not_forall_isWithin_baseDir`).
-/

namespace TsProject

open Relation (ReflTransGen)
open FileSpec (IsOpenName IsPackageName accepts anyDirsName base expand hasWildcard
  hasWildcardChars isWithin)
open Selection (Selects allowed hasExtension)
open TsProject.Path (IsName IsNormal ofNames trail)

/-! ### Wildcards of a path -/

/-- The characters of the components of a path are characters of the path. -/
theorem Path.mem_toList_of_mem_trail {path : String} {part : List Char} {c : Char}
    (hpart : part ∈ trail path) (hc : c ∈ part) : c ∈ path.toList := by
  rcases List.mem_append.mp hpart with hpart | hpart
  · rw [List.eq_of_mem_replicate hpart] at hc
    cases hc
  · exact Text.mem_of_mem_splitOnChar (List.mem_filter.mp hpart).1 hc

/-- No component of a path without wildcards has one. -/
theorem FileSpec.hasWildcardChars_of_mem_trail {path : String} (h : hasWildcard path = false) :
    ∀ part ∈ trail path, hasWildcardChars part = false := by
  intro part hpart
  have hkept : ∀ c, path.toList.contains c = false → part.contains c = false := by
    intro c hc
    rw [← Bool.not_eq_true, List.contains_iff_mem] at hc ⊢
    exact fun hmem => hc (Path.mem_toList_of_mem_trail hpart hmem)
  obtain ⟨hstar, hone⟩ := Bool.or_eq_false_iff.mp h
  exact Bool.or_eq_false_iff.mpr ⟨hkept _ hstar, hkept _ hone⟩

/-! ### Everything below a directory -/

section Everything

/-- The components that stand for everything below a directory. -/
def everything : List (List Char) := [anyDirsName, ['*']]

theorem isName_of_mem_everything : ∀ n ∈ everything, IsName n := by decide

theorem ofList_everything : String.ofList (Text.joinWith '/' everything) = "**/*" := by
  decide

variable {k : Nat} {names : List (List Char)}

/-- Everything below a directory is a specification that stands for itself. -/
theorem expand_everything (h : ∀ n ∈ names, IsName n) :
    expand (ofNames (k + 1) (names ++ everything)) =
      .ok (ofNames (k + 1) (names ++ everything)) := by
  have hall : ∀ n ∈ names ++ everything, IsName n :=
    List.forall_mem_append.mpr ⟨h, isName_of_mem_everything⟩
  have hne : names ++ everything ≠ [] := by simp [everything]
  have hlast : (Text.splitOnChar '/' (ofNames (k + 1) (names ++ everything)).toList).getLast? =
      some ['*'] := by
    rw [Path.toList_ofNames, ← Path.parts, Path.parts_assemble k hne hall]
    simp [everything]
  rw [expand, hlast]
  rfl

variable (hk : k + 1 = 1 ∨ k + 1 = 2) (h : ∀ n ∈ names, IsName n)
include hk h

theorem resolve_everything :
    Path.resolve (ofNames (k + 1) names) "**/*" = ofNames (k + 1) (names ++ everything) := by
  rw [← ofList_everything]
  exact Path.resolve_joinWith hk h isName_of_mem_everything (by decide)

/-- **What everything below a directory takes** lies behind the names of the directory in front of
the first one with a wildcard. -/
theorem exists_trail_of_accepts_everything {j : Nat} {file : List (List Char)}
    (hj : j + 1 = 1 ∨ j + 1 = 2) (hne : file ≠ []) (hfile : ∀ n ∈ file, IsName n)
    (haccepts : accepts false (ofNames (k + 1) (names ++ everything)) (ofNames (j + 1) file)) :
    ∃ more, more ≠ [] ∧ trail (ofNames (j + 1) file) =
      (trail (ofNames (k + 1) names)).takeWhile (!hasWildcardChars ·) ++ more := by
  have hall : ∀ n ∈ names ++ everything, IsName n :=
    List.forall_mem_append.mpr ⟨h, isName_of_mem_everything⟩
  have hsplit : trail (ofNames (k + 1) (names ++ everything)) =
      (trail (ofNames (k + 1) names)).takeWhile (!hasWildcardChars ·) ++
        ((trail (ofNames (k + 1) names)).dropWhile (!hasWildcardChars ·) ++ everything) := by
    rw [← List.append_assoc, List.takeWhile_append_dropWhile, Path.trail_ofNames hk hall,
      Path.trail_ofNames hk h, List.append_assoc]
  rw [FileSpec.accepts_ofNames false hk (by simp [everything]) hall, hsplit] at haccepts
  refine FileSpec.exists_trail_of_literal ?_ ?_ ⟨['*'], by simp [everything], by decide⟩ hj hne
    hfile haccepts
  · intro part hpart
    exact Path.noSlash_of_mem_trail ((List.takeWhile_prefix _).subset hpart)
  · intro part hpart
    simpa using List.mem_takeWhile_imp hpart

end Everything

namespace Config

/-! ### Default selections -/

/-- **No file declares inputs**, neither the one at the path nor any that it extends: neither
files nor what to include. -/
def DeclaresNoInputs (w : World) (path : String) : Prop :=
  ∀ file fields doc, ReflTransGen (Extends w) path file → readFile w file = .ok (.ok fields) →
    Document.ofFields fields = .ok doc → doc.files = none ∧ doc.incl = none

/-- Where no file declares inputs, none are passed on. -/
theorem files_eq_none_of_inherits {w : World} {path : String} {e : Inherited}
    (h : Inherits w path e) (hnone : DeclaresNoInputs w path) : e.files = none ∧ e.incl = none := by
  refine induction_of_inherits (P := fun e => e.files = none ∧ e.incl = none) ⟨rfl, rfl⟩ ?_ ?_ h
  · rintro lower upper ⟨hfiles, hincl⟩ ⟨hfiles', hincl'⟩
    rw [Inherited.combine, hfiles, hincl, hfiles', hincl']
    exact ⟨rfl, rfl⟩
  · intro file fields doc hreach hread hdoc options
    obtain ⟨hfiles, hincl⟩ := hnone file fields doc hreach hread hdoc
    rw [Inherited.own, hfiles, hincl]
    exact ⟨rfl, rfl⟩

variable {w : World} {path : String} {requireInputs : Bool} {c : Config}

/-- **The default selection**: what the only specification takes, everything below the directory
of the configuration. -/
theorem exists_selects_of_declaresNoInputs (h : load w path requireInputs = .ok (.ok c))
    (hnone : DeclaresNoInputs w c.path) :
    ∃ allowScripts, Selects (w.walk (base (Path.resolve c.baseDir "**/*")))
      [Path.resolve c.baseDir "**/*"] c.excl (allowed allowScripts) none c.selection := by
  obtain ⟨e, hinherits, hrealizes⟩ := exists_inherits_of_load h
  obtain ⟨hfiles, hincl⟩ := files_eq_none_of_inherits hinherits hnone
  obtain ⟨located, fields, collected, -, -, -, -, hfinish⟩ := exists_finish_of_load h
  obtain ⟨allowScripts, hselect⟩ := exists_select_of_finish hfinish
  have hdefault : c.incl = [Path.resolve c.baseDir "**/*"] := by
    rw [hrealizes.incl, hincl, hfiles]
    rfl
  have hexpand : expand (Path.resolve c.baseDir "**/*") = .ok (Path.resolve c.baseDir "**/*") := by
    obtain ⟨k, names, hk, hnames, hbaseDir⟩ := (hasNormalPaths_of_load h).baseDir.exists_names
    rw [hbaseDir, resolve_everything hk hnames, expand_everything hnames]
  generalize Path.resolve c.baseDir "**/*" = spec at hdefault hexpand ⊢
  have hspecs : c.incl.map expand = [spec].map .ok := by
    rw [hdefault, List.map_singleton, hexpand, List.map_singleton]
  have hselects := Selection.selects_of_select hspecs hselect
  rw [FileSpec.walkRoots_singleton, List.flatMap_singleton,
    hrealizes.files.trans hfiles] at hselects
  exact ⟨allowScripts, hselects⟩

/-- The input files of a default selection are those that are found. -/
theorem mem_inputFiles_iff_of_selects {walked specs exclude extensions : List String}
    (h : Selects walked specs exclude extensions none c.selection) {file : String} :
    file ∈ c.inputFiles ↔ file ∈ c.selection.found := by
  have hliteral : c.selection.literal = [] := h.literal_eq
  rw [inputFiles, Selection.files, hliteral, List.nil_append]

/-- **The default selection stays inside the directory** of the configuration where the path of
that directory holds no wildcard. In any case an input file lies behind those of its names that
come before the first one with a wildcard. -/
theorem isWithin_baseDir_of_mem_inputFiles (h : load w path requireInputs = .ok (.ok c))
    (hnone : DeclaresNoInputs w c.path) {file : String} (hfile : file ∈ c.inputFiles) :
    (∃ more, more ≠ [] ∧
      trail file = (trail c.baseDir).takeWhile (!hasWildcardChars ·) ++ more) ∧
    (hasWildcard c.baseDir = false → isWithin c.baseDir file ∧ file ≠ c.baseDir) := by
  have hnormal := hasNormalPaths_of_load h
  obtain ⟨allowScripts, hselects⟩ := exists_selects_of_declaresNoInputs h hnone
  have hfound : file ∈ c.selection.found := (mem_inputFiles_iff_of_selects hselects).mp hfile
  obtain ⟨⟨-, hextension, ⟨spec, hspec, haccepts⟩, -, -⟩, -⟩ := (hselects.mem_found file).mp hfound
  obtain rfl := List.mem_singleton.mp hspec
  obtain ⟨k, names, hk, hnames, hbaseDir⟩ := hnormal.baseDir.exists_names
  obtain ⟨j, fileNames, hj, hfileNames, rfl⟩ := (hnormal.inputFiles file hfile).exists_names
  have hne : fileNames ≠ [] := by
    -- a root has no extension
    rintro rfl
    obtain rfl | rfl : j = 0 ∨ j = 1 := by omega
    · cases hextension
    · cases hextension
  rw [hbaseDir, resolve_everything hk hnames] at haccepts
  have htrail := exists_trail_of_accepts_everything hk hnames hj hne hfileNames haccepts
  rw [← hbaseDir] at htrail
  refine ⟨htrail, fun hplain => ?_⟩
  obtain ⟨more, hmore, htrail⟩ := htrail
  have hall : (trail c.baseDir).takeWhile (!hasWildcardChars ·) = trail c.baseDir := by
    refine List.takeWhile_eq_self_iff.mpr fun part hpart => ?_
    simpa using FileSpec.hasWildcardChars_of_mem_trail hplain part hpart
  rw [hall] at htrail
  constructor
  · by_cases hroot : c.baseDir = "//"
    · exact isWithin_root (hnormal.inputFiles _ hfile) (.inr hroot)
    · rw [FileSpec.isWithin_iff_trail ⟨hnormal.baseDir, hroot⟩ (hnormal.inputFiles _ hfile), htrail]
      exact List.prefix_append _ _
  · intro heq
    rw [heq] at htrail
    exact hmore (List.append_right_eq_self.mp htrail.symm)

/-- **The default selection takes** a file that the walk meets and the specification takes, where
nothing excludes it and its extension is of the best rank. -/
theorem mem_inputFiles_of_mem_walk (h : load w path requireInputs = .ok (.ok c))
    (hnone : DeclaresNoInputs w c.path) {file : String}
    (hwalk : file ∈ w.walk (base (Path.resolve c.baseDir "**/*")))
    (haccepts : accepts false (Path.resolve c.baseDir "**/*") file)
    (hexclude : ∀ spec ∈ c.excl, ¬ accepts true spec file)
    (hextension : ∀ allowScripts, hasExtension (allowed allowScripts) file)
    (hbest : ∀ e, Extension.of? file = some e → e.rank = 0) : file ∈ c.inputFiles := by
  obtain ⟨allowScripts, hselects⟩ := exists_selects_of_declaresNoInputs h hnone
  rw [mem_inputFiles_iff_of_selects hselects, hselects.mem_found]
  have hliteral : c.selection.literal = [] := hselects.literal_eq
  constructor
  · exact ⟨hwalk, hextension allowScripts, ⟨_, by simp, haccepts⟩, hexclude, by simp [hliteral]⟩
  · -- no rank is better than the best one
    rintro other - ⟨e, f, -, hf, -, -, hrank⟩
    rw [hbest f hf] at hrank
    omega

/-- A file that extends nothing and declares no inputs. -/
theorem declaresNoInputs_of_lone {w : World} {path : String}
    (h : (readFile w path).toOption.any fun answer => answer.toOption.any fun fields =>
      (Document.ofFields fields).toOption.any fun doc =>
        doc.bases.isNone && (doc.files.isNone && doc.incl.isNone)) :
    DeclaresNoInputs w path := by
  intro file fields doc hreach hread hdoc
  have hnone := of_lone h hreach hread hdoc
  simpa only [Bool.and_eq_true, Option.isNone_iff_eq_none] using hnone

/-- An empty configuration and a source in one directory, and a source in another. -/
def bareConfigIn (dir : String) : World :=
  { nodes := [
      ([dir], .dir), ([dir, "src"], .dir), ([dir, "src", "a.ts"], plainFile ""),
      ([dir, "tsconfig.json"], plainFile "\x7b\x7d"),
      (["px"], .dir), (["px", "a.ts"], plainFile "")] }

theorem exists_load_bareConfigIn {dir : String} (path baseDir : String)
    (hlone : DeclaresNoInputs (bareConfigIn dir) path)
    (hload : (load (bareConfigIn dir) path false).toOption.any fun answer =>
      answer.toOption.any fun c => c.path == path && c.baseDir == baseDir &&
        c.excl == packageDirs.map (Path.join baseDir)) :
    ∃ c, load (bareConfigIn dir) path false = .ok (.ok c) ∧
      DeclaresNoInputs (bareConfigIn dir) c.path ∧ c.baseDir = baseDir ∧
      c.excl = packageDirs.map (Path.join baseDir) := by
  obtain ⟨answer, hload, hanswer⟩ := exists_ok_of_any hload
  obtain ⟨c, rfl, hfinds⟩ := exists_ok_of_any hanswer
  simp only [Bool.and_eq_true, beq_iff_eq] at hfinds
  obtain ⟨⟨hpath, hdir⟩, hexcl⟩ := hfinds
  exact ⟨c, hload, hpath ▸ hlone, hdir, hexcl⟩

/-- Characters that mean something to a pattern, but are no wildcards, stand for themselves. -/
theorem isWithin_baseDir_oddName : ∃ c,
    load (bareConfigIn "p+(x)") "/p+(x)/tsconfig.json" false = .ok (.ok c) ∧
      DeclaresNoInputs (bareConfigIn "p+(x)") c.path ∧ "/p+(x)/src/a.ts" ∈ c.inputFiles ∧
      isWithin c.baseDir "/p+(x)/src/a.ts" ∧ "/p+(x)/src/a.ts" ≠ c.baseDir := by
  have hlone : DeclaresNoInputs (bareConfigIn "p+(x)") "/p+(x)/tsconfig.json" :=
    declaresNoInputs_of_lone (by decide +kernel)
  obtain ⟨c, hload, hnone, hdir, hexcl⟩ :=
    exists_load_bareConfigIn "/p+(x)/tsconfig.json" "/p+(x)" hlone (by decide +kernel)
  have hsource : "/p+(x)/src/a.ts" ∈ (bareConfigIn "p+(x)").walk "/p+(x)/src" := by
    decide +kernel
  have hopen : IsOpenName "src".toList := ⟨by decide, by decide, by rw [IsPackageName]; decide⟩
  have hwalk : "/p+(x)/src/a.ts" ∈ (bareConfigIn "p+(x)").walk "/p+(x)" :=
    Selection.mem_walk_of_trail (by decide) (by decide) (List.forall_mem_singleton.mpr hopen)
      (by decide) hsource
  have hbase : base (Path.resolve "/p+(x)" "**/*") = "/p+(x)" := by decide +kernel
  have hfile : "/p+(x)/src/a.ts" ∈ c.inputFiles :=
    mem_inputFiles_of_mem_walk hload hnone (by rw [hdir, hbase]; exact hwalk)
      (by rw [hdir]; decide +kernel) (by rw [hexcl]; decide +kernel) (by decide) (by decide)
  have hplain : hasWildcard c.baseDir = false := by rw [hdir]; decide
  exact ⟨c, hload, hnone, hfile,
    (isWithin_baseDir_of_mem_inputFiles hload hnone hfile).2 hplain⟩

/-- A wildcard in the name of the directory matches the names of others: the walk begins above, and
the source of another directory is found. -/
theorem not_forall_isWithin_baseDir :
    ¬ ∀ (w : World) (path : String) (requireInputs : Bool) (c : Config) (file : String),
      load w path requireInputs = .ok (.ok c) → DeclaresNoInputs w c.path →
      file ∈ c.inputFiles → isWithin c.baseDir file := by
  intro h
  have hlone : DeclaresNoInputs (bareConfigIn "p*") "/p*/tsconfig.json" :=
    declaresNoInputs_of_lone (by decide +kernel)
  obtain ⟨c, hload, hnone, hdir, hexcl⟩ :=
    exists_load_bareConfigIn "/p*/tsconfig.json" "/p*" hlone (by decide +kernel)
  have hsource : "/px/a.ts" ∈ (bareConfigIn "p*").walk "/px" := by decide +kernel
  have hopen : IsOpenName "px".toList := ⟨by decide, by decide, by rw [IsPackageName]; decide⟩
  have hwalk : "/px/a.ts" ∈ (bareConfigIn "p*").walk "/" :=
    Selection.mem_walk_of_trail (by decide) (by decide) (List.forall_mem_singleton.mpr hopen)
      (by decide) hsource
  have hbase : base (Path.resolve "/p*" "**/*") = "/" := by decide +kernel
  have hfile : "/px/a.ts" ∈ c.inputFiles :=
    mem_inputFiles_of_mem_walk hload hnone (by rw [hdir, hbase]; exact hwalk)
      (by rw [hdir]; decide +kernel) (by rw [hexcl]; decide +kernel) (by decide) (by decide)
  have hinside := h _ _ _ c _ hload hnone hfile
  rw [hdir] at hinside
  exact absurd hinside (by decide)

end Config

end TsProject

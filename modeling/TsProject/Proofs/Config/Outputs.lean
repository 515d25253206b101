import TsProject.Proofs.Config.Extended
import TsProject.Proofs.Config.Lists
import TsProject.Proofs.Selection.Exclusion

/-!
# Outputs are no inputs

Where none of its files declares what to exclude, a configuration excludes the directories that
builds and installations fill, as specifications with the text of their paths. A directory takes
what lies within it, whatever its name, so that no file of such a directory is found by the
include specifications. The exception are the roots: as a specification, a root takes none of
the files below it, so that a configuration whose output goes to the root finds what it has
written (`isWithin_filledDir_iff`).
-/

namespace TsProject

open Relation (ReflTransGen)
open FileSpec (isWithin)
open TsProject.Path (IsNormal)

namespace Config

/-! ### Files that exclude nothing -/

/-- **No file declares what to exclude**: neither the one at the path nor any that it extends. -/
def ExcludesNothing (w : World) (path : String) : Prop :=
  ∀ file fields doc, ReflTransGen (Extends w) path file → readFile w file = .ok (.ok fields) →
    Document.ofFields fields = .ok doc → doc.excl = none

/-- Where no file declares what to exclude, nothing is passed on. -/
theorem excl_eq_none_of_inherits {w : World} {path : String} {e : Inherited}
    (h : Inherits w path e) (hnone : ExcludesNothing w path) : e.excl = none := by
  refine induction_of_inherits (P := fun e => e.excl = none) rfl ?_ ?_ h
  · intro lower upper hlower hupper
    rw [Inherited.combine, hlower, hupper]
    rfl
  · intro file fields doc hreach hread hdoc options
    rw [Inherited.own, hnone file fields doc hreach hread hdoc]
    rfl

/-! ### Found files -/

variable {w : World} {path : String} {requireInputs : Bool} {c : Config}

/-- A file that is found lies in no directory that is excluded, the roots apart. -/
theorem not_isWithin_of_mem_found (h : load w path requireInputs = .ok (.ok c)) {dir file : String}
    (hdir : dir ∈ c.excl) (hroot : dir ≠ "/") (hdouble : dir ≠ "//")
    (hfile : file ∈ c.selection.found) : ¬ isWithin dir file := by
  obtain ⟨located, fields, collected, -, -, -, -, hfinish⟩ := exists_finish_of_load h
  obtain ⟨allowScripts, hselect⟩ := exists_select_of_finish hfinish
  obtain ⟨-, specs, -, hfound⟩ := Selection.isFound_of_select hselect
  intro hwithin
  have hnormal := (hasNormalPaths_of_load h).excl dir hdir
  exact (hfound file hfile).notExcluded dir hdir
    (FileSpec.accepts_of_isWithin hnormal hroot hdouble hwithin)

/-- An input file that is not named has been found. -/
theorem mem_found_of_mem_inputFiles (h : load w path requireInputs = .ok (.ok c)) {file : String}
    (hfile : file ∈ c.inputFiles) (hnew : file ∉ c.files.getD []) : file ∈ c.selection.found := by
  obtain ⟨located, fields, collected, -, -, -, -, hfinish⟩ := exists_finish_of_load h
  obtain ⟨allowScripts, hselect⟩ := exists_select_of_finish hfinish
  refine (List.mem_append.mp hfile).resolve_left fun hliteral => hnew ?_
  rw [(Selection.isFound_of_select hselect).1, List.mem_eraseDups, List.mem_map] at hliteral
  obtain ⟨named, hnamed, rfl⟩ := hliteral
  -- the files named are normal already
  cases hfiles : c.files with
  | none =>
    rw [hfiles] at hnamed
    cases hnamed
  | some paths =>
    rw [hfiles] at hnamed
    rwa [((hasNormalPaths_of_load h).files paths hfiles named hnamed).normalize_eq]

theorem isWithin_root {file : String} (h : IsNormal file) {root : String}
    (hroot : root = "/" ∨ root = "//") : isWithin root file := by
  have hstart := Path.startsWith_of_isAbsolute h.isAbsolute
  rw [isWithin, Bool.or_eq_true]
  rcases hroot with rfl | rfl
  · exact .inr hstart
  · exact .inr hstart

/-- **Outputs are no inputs.** Where no file declares what to exclude, a file that is found lies
in none of the directories that builds or installations fill, whatever their names, unless the
directory is a root. -/
theorem isWithin_filledDir_iff (h : load w path requireInputs = .ok (.ok c))
    (hnone : ExcludesNothing w c.path) {dir file : String}
    (hdir : IsFilledDir c.baseDir c.options dir) (hfile : file ∈ c.inputFiles)
    (hnew : file ∉ c.files.getD []) : isWithin dir file ↔ dir = "/" ∨ dir = "//" := by
  have hnormal := hasNormalPaths_of_load h
  have hexcl : dir ∈ c.excl := by
    obtain ⟨e, hinherits, hrealizes⟩ := exists_inherits_of_load h
    rw [hrealizes.excl, excl_eq_none_of_inherits hinherits hnone]
    exact (mem_implicitExclude_iff hnormal.options).mpr hdir
  constructor
  · intro hwithin
    by_contra hroots
    obtain ⟨hroot, hdouble⟩ := not_or.mp hroots
    exact not_isWithin_of_mem_found h hexcl hroot hdouble
      (mem_found_of_mem_inputFiles h hfile hnew) hwithin
  · exact isWithin_root (hnormal.inputFiles file hfile)

/-- A directory takes what lies within it also where its name has a wildcard, and a root does
not. -/
example : FileSpec.accepts true "/o*t" "/o*t/a.ts" ∧ isWithin "/" "/o*t/a.ts" ∧
    ¬ FileSpec.accepts true "/" "/o*t/a.ts" := by
  decide +kernel

/-! ### Directories with wildcards, and the root -/

/-- A file that extends nothing is the only one that is reached from it. -/
theorem of_lone {w : World} {path : String} {check : Document → Bool}
    (h : (readFile w path).toOption.any fun answer => answer.toOption.any fun fields =>
      (Document.ofFields fields).toOption.any fun doc => doc.bases.isNone && check doc)
    {file : String} {fields : Fields} {doc : Document}
    (hreach : ReflTransGen (Extends w) path file) (hread : readFile w file = .ok (.ok fields))
    (hdoc : Document.ofFields fields = .ok doc) : check doc := by
  obtain ⟨answer, hreadPath, hanswer⟩ := exists_ok_of_any h
  obtain ⟨fields', rfl, hfields⟩ := exists_ok_of_any hanswer
  obtain ⟨doc', hdocPath, hlone⟩ := exists_ok_of_any hfields
  obtain ⟨hbases, hcheck⟩ := Bool.and_eq_true_iff.mp hlone
  rcases hreach.cases_head with rfl | ⟨target, ⟨hreadTo, hdocTo, hspec, -⟩, -⟩
  · obtain rfl := Except.ok.inj (Except.ok.inj (hreadPath.symm.trans hread))
    obtain rfl := Except.ok.inj (hdocPath.symm.trans hdoc)
    exact hcheck
  · obtain rfl := Except.ok.inj (Except.ok.inj (hreadPath.symm.trans hreadTo))
    obtain rfl := Except.ok.inj (hdocPath.symm.trans hdocTo)
    rw [Option.isNone_iff_eq_none.mp hbases] at hspec
    cases hspec

/-- A file that extends nothing and does not declare what to exclude. -/
theorem excludesNothing_of_lone {w : World} {path : String}
    (h : (readFile w path).toOption.any fun answer => answer.toOption.any fun fields =>
      (Document.ofFields fields).toOption.any fun doc => doc.bases.isNone && doc.excl.isNone) :
    ExcludesNothing w path := by
  intro file fields doc hreach hread hdoc
  have hnone := of_lone h hreach hread hdoc
  exact Option.isNone_iff_eq_none.mp hnone

/-- A source, and a configuration whose output goes to a directory. -/
def outputTo (dir : String) : World :=
  { nodes := [
      (["p"], .dir), (["p", "a.ts"], plainFile ""),
      (["tsconfig.json"], plainFile
        ("\x7b\"compilerOptions\": \x7b\"outDir\": \"" ++ dir ++
          "\"\x7d, \"include\": [\"p/*.ts\"]\x7d"))] }

/-- The configuration finds the source, and its output goes to the directory. -/
def findsSource (dir : String) (c : Config) : Bool :=
  c.path == "/tsconfig.json" && c.inputFiles == ["/p/a.ts"] && c.files.isNone &&
    match c.options.get? "outDir" with
    | some (.str text) => text == dir
    | _ => false

theorem exists_load_of_findsSource {output dir : String}
    (hnone : ExcludesNothing (outputTo output) "/tsconfig.json")
    (h : (load (outputTo output) "/tsconfig.json" true).toOption.any fun answer =>
      answer.toOption.any (findsSource dir)) :
    ∃ c, load (outputTo output) "/tsconfig.json" true = .ok (.ok c) ∧
      ExcludesNothing (outputTo output) c.path ∧ IsFilledDir c.baseDir c.options dir ∧
      "/p/a.ts" ∈ c.inputFiles ∧ "/p/a.ts" ∉ c.files.getD [] := by
  obtain ⟨answer, hload, hanswer⟩ := exists_ok_of_any h
  obtain ⟨c, rfl, hfinds⟩ := exists_ok_of_any hanswer
  simp only [findsSource, Bool.and_eq_true, beq_iff_eq, Option.isNone_iff_eq_none] at hfinds
  obtain ⟨⟨⟨hpath, hinputs⟩, hfiles⟩, houtput⟩ := hfinds
  refine ⟨c, hload, hpath ▸ hnone, ?_, by simp [hinputs], by simp [hfiles]⟩
  split at houtput
  · rename_i text htext
    exact .output (by simp) (beq_iff_eq.mp houtput ▸ htext)
  · cases houtput

/-- A directory with a wildcard in its name is excluded, and the source is not in it. -/
theorem isWithin_filledDir_wild : ∃ c,
    load (outputTo "o*t") "/tsconfig.json" true = .ok (.ok c) ∧
      ExcludesNothing (outputTo "o*t") c.path ∧ IsFilledDir c.baseDir c.options "/o*t" ∧
      "/p/a.ts" ∈ c.inputFiles ∧ "/p/a.ts" ∉ c.files.getD [] ∧
      (isWithin "/o*t" "/p/a.ts" ↔ "/o*t" = "/" ∨ "/o*t" = "//") := by
  have hlone : ExcludesNothing (outputTo "o*t") "/tsconfig.json" :=
    excludesNothing_of_lone (by decide +kernel)
  have hfinds : (load (outputTo "o*t") "/tsconfig.json" true).toOption.any fun answer =>
      answer.toOption.any (findsSource "/o*t") := by
    decide +kernel
  obtain ⟨c, hload, hnone, hdir, hfile, hnew⟩ := exists_load_of_findsSource hlone hfinds
  exact ⟨c, hload, hnone, hdir, hfile, hnew, isWithin_filledDir_iff hload hnone hdir hfile hnew⟩

/-- Output that goes to the root is found. -/
theorem not_forall_not_isWithin_filledDir :
    ¬ ∀ (w : World) (path : String) (requireInputs : Bool) (c : Config) (dir file : String),
      load w path requireInputs = .ok (.ok c) → ExcludesNothing w c.path →
      IsFilledDir c.baseDir c.options dir → file ∈ c.inputFiles → file ∉ c.files.getD [] →
      ¬ isWithin dir file := by
  intro h
  have hlone : ExcludesNothing (outputTo "/") "/tsconfig.json" :=
    excludesNothing_of_lone (by decide +kernel)
  have hfinds : (load (outputTo "/") "/tsconfig.json" true).toOption.any fun answer =>
      answer.toOption.any (findsSource "/") := by
    decide +kernel
  obtain ⟨c, hload, hnone, hdir, hfile, hnew⟩ := exists_load_of_findsSource hlone hfinds
  exact h _ _ _ c _ _ hload hnone hdir hfile hnew (by decide)

end Config

end TsProject

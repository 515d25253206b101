import TsProject.Engine.Project
import TsProject.Proofs.Path.Relative
import TsProject.Proofs.Selection.Base

/-!
# Where incremental state lies

Where an output and a root directory are set, and no place for the incremental state, the state of
a configuration below the root directory lies below the output directory as the configuration lies
below the root: behind the same directories, under its name with another extension
(`buildInfoPath_ofNames`). So the states of two configurations never share a place
(`buildInfoPath_mirrors`).
-/

namespace TsProject.CompilationUnit

open FileSpec (isWithin)
open TsProject.Path (IsName IsRooted ofNames trail)

/-! ### Options and configurations -/

/-- **Options that mirror the layout**: they keep incremental state and place it by an output and a
root directory. -/
structure MirrorsLayout (options : Fields) (out root : String) : Prop where
  keeps : keepsState options
  noFile : isSet options "outFile" = false
  noPlace : isSet options "tsBuildInfoFile" = false
  outDir : options.get? "outDir" = some (.str out)
  rootDir : options.get? "rootDir" = some (.str root)

/-- **A configuration below a root directory**, behind the directories `dirs` and under `name`,
which is more than points, and `.json`. -/
structure LiesBelow (root config : String) (dirs : List (List Char)) (name : List Char) :
    Prop where
  isRooted : IsRooted config
  trail_eq : trail config = trail root ++ dirs ++ [name ++ ".json".toList]
  telling : ∃ c ∈ name, c ≠ '.'

theorem setText?_of_not_isSet {options : Fields} {key : String} (h : isSet options key = false) :
    setText? options key = none := by
  rw [isSet] at h
  rw [setText?]
  split
  · rename_i s hs
    rw [hs] at h
    have hempty : s = "" := by simpa [Json.isTruthy] using h
    rw [if_pos hempty]
  · rfl

theorem setText?_of_isRooted {options : Fields} {key path : String} (hpath : IsRooted path)
    (h : options.get? key = some (.str path)) : setText? options key = some path := by
  have hne : path ≠ "" := by
    rintro rfl
    exact absurd hpath.isNormal.isAbsolute (by decide)
  rw [setText?, h]
  exact if_neg hne

/-- A name with more than points in front of an extension is still a name without it. -/
theorem isName_of_telling {name : List Char} (h : ∃ c ∈ name, c ≠ '.') (hslash : '/' ∉ name) :
    IsName name := by
  obtain ⟨c, hc, hpoint⟩ := h
  have hpoints : ∀ points : List Char, (∀ p ∈ points, p = '.') → name ≠ points := by
    rintro points hall rfl
    exact hpoint (hall c hc)
  exact ⟨hpoints [] (by simp), hpoints ['.'] (by simp), hpoints Path.up (by simp [Path.up]),
    hslash⟩

/-! ### Places -/

section Mirrored

variable {options : Fields} {out root dirs : List (List Char)} {name : List Char}
variable (hoptions : MirrorsLayout options (ofNames 1 out) (ofNames 1 root))
variable (hout : ∀ n ∈ out, IsName n) (hroot : ∀ n ∈ root, IsName n)
variable (hdirs : ∀ n ∈ dirs, IsName n) (hname : IsName name) (htelling : ∃ c ∈ name, c ≠ '.')
include hoptions hout hroot hdirs hname htelling

/-- The way from the root directory to the configuration leads from the output directory to the
state. -/
theorem buildInfoStem_ofNames (processCwd : String) :
    buildInfoStem processCwd options (ofNames 1 (root ++ dirs ++ [name ++ ".json".toList])) =
      ofNames 1 (out ++ dirs ++ [name]) := by
  have hfile : setText? options "outFile" = none := setText?_of_not_isSet hoptions.noFile
  have houtText := setText?_of_isRooted (Path.isRooted_ofNames hout) hoptions.outDir
  have hrootText := setText?_of_isRooted (Path.isRooted_ofNames hroot) hoptions.rootDir
  have hbelow : ∀ n ∈ dirs ++ [name], IsName n :=
    List.forall_mem_append.mpr ⟨hdirs, List.forall_mem_singleton.mpr hname⟩
  have hne : dirs ++ [name] ≠ [] := by simp
  have hstem : Path.stem (ofNames 1 (root ++ dirs ++ [name ++ ".json".toList])) =
      ofNames 1 (root ++ (dirs ++ [name])) := by
    rw [← List.append_assoc]
    exact Path.stem_ofNames 0 hname.noSlash htelling (by decide) (by decide)
  have hway : Path.relativeTo processCwd (ofNames 1 root) (ofNames 1 (root ++ (dirs ++ [name]))) =
      String.ofList (Text.joinWith '/' (dirs ++ [name])) :=
    Path.relativeTo_ofNames (.inl rfl) hroot hbelow hne processCwd
  have hmoved : Path.resolve (ofNames 1 out)
      (String.ofList (Text.joinWith '/' (dirs ++ [name]))) = ofNames 1 (out ++ (dirs ++ [name])) :=
    Path.resolve_joinWith (.inl rfl) hout hbelow hne
  simp only [buildInfoStem, hfile, houtText, hrootText]
  rw [hstem, hway, hmoved, List.append_assoc]

/-- **The place of the state**: the same directories below the output directory, and the name with
another extension. -/
theorem buildInfoPath_ofNames (processCwd : String) :
    buildInfoPath processCwd options (ofNames 1 (root ++ dirs ++ [name ++ ".json".toList])) =
      some (ofNames 1 (out ++ dirs ++ [name ++ ".tsbuildinfo".toList])) := by
  obtain ⟨dir, hdir⟩ := Path.exists_assemble_concat 0 (out ++ dirs)
  have hplace : ofNames 1 (out ++ dirs ++ [name]) ++ ".tsbuildinfo" =
      ofNames 1 (out ++ dirs ++ [name ++ ".tsbuildinfo".toList]) := by
    refine String.toList_injective ?_
    rw [String.toList_append, Path.toList_ofNames, Path.toList_ofNames, hdir, hdir,
      List.append_assoc, List.cons_append]
  rw [buildInfoPath, hoptions.keeps, hoptions.noPlace,
    buildInfoStem_ofNames hoptions hout hroot hdirs hname htelling, hplace]
  rfl

end Mirrored

/-- A configuration below a root directory consists of the names of both. -/
theorem LiesBelow.exists_names {root : List (List Char)} {config : String}
    {dirs : List (List Char)} {name : List Char} (hroot : ∀ n ∈ root, IsName n)
    (h : LiesBelow (ofNames 1 root) config dirs name) :
    (∀ n ∈ dirs, IsName n) ∧ IsName name ∧
      config = ofNames 1 (root ++ dirs ++ [name ++ ".json".toList]) := by
  obtain ⟨names, hnames, rfl⟩ := Path.isRooted_iff.mp h.isRooted
  have htrail := h.trail_eq
  rw [Path.trail_ofNames_one hnames, Path.trail_ofNames_one hroot] at htrail
  subst htrail
  have hfile : '/' ∉ name ++ ".json".toList := (hnames _ (by simp)).noSlash
  refine ⟨fun n hn => hnames n (by simp [hn]), isName_of_telling h.telling ?_, rfl⟩
  exact fun hslash => hfile (List.mem_append_left _ hslash)

/-- **Incremental state mirrors the layout.** With an output and a root directory, the place of the
state of a configuration is that of the configuration with the one directory in place of the
other and the extension replaced, so that it lies below the output directory; and different
configurations have different places. -/
theorem buildInfoPath_mirrors {options : Fields} {out root : String}
    (hout : IsRooted out) (hroot : IsRooted root) (hoptions : MirrorsLayout options out root)
    (processCwd : String) :
    (∀ {config dirs name}, LiesBelow root config dirs name →
      ∃ place, buildInfoPath processCwd options config = some place ∧ IsRooted place ∧
        trail place = trail out ++ dirs ++ [name ++ ".tsbuildinfo".toList] ∧
        isWithin out place ∧ place ≠ out) ∧
    ∀ {config config' dirs dirs' name name'}, LiesBelow root config dirs name →
      LiesBelow root config' dirs' name' →
        buildInfoPath processCwd options config = buildInfoPath processCwd options config' →
          config = config' := by
  have hbase : FileSpec.IsBase out := ⟨hout.isNormal, by rintro rfl; cases hout.rootLength⟩
  obtain ⟨outNames, houtNames, rfl⟩ := Path.isRooted_iff.mp hout
  obtain ⟨rootNames, hrootNames, rfl⟩ := Path.isRooted_iff.mp hroot
  -- every place is a rooted path, the names of which are known
  have hplace : ∀ {config dirs name}, LiesBelow (ofNames 1 rootNames) config dirs name →
      (∀ n ∈ outNames ++ dirs ++ [name ++ ".tsbuildinfo".toList], IsName n) ∧
        buildInfoPath processCwd options config =
          some (ofNames 1 (outNames ++ dirs ++ [name ++ ".tsbuildinfo".toList])) := by
    intro config dirs name h
    obtain ⟨hdirs, hname, rfl⟩ := h.exists_names hrootNames
    refine ⟨List.forall_mem_append.mpr ⟨List.forall_mem_append.mpr ⟨houtNames, hdirs⟩, ?_⟩,
      buildInfoPath_ofNames hoptions houtNames hrootNames hdirs hname h.telling processCwd⟩
    obtain ⟨c, hc, hpoint⟩ := h.telling
    refine List.forall_mem_singleton.mpr (isName_of_telling ⟨c, by simp [hc], hpoint⟩ ?_)
    simp [List.mem_append, hname.noSlash]
  constructor
  · intro config dirs name h
    obtain ⟨hnames, hpath⟩ := hplace h
    have hrooted := Path.isRooted_ofNames hnames
    have htrail : trail (ofNames 1 (outNames ++ dirs ++ [name ++ ".tsbuildinfo".toList])) =
        trail (ofNames 1 outNames) ++ dirs ++ [name ++ ".tsbuildinfo".toList] := by
      rw [Path.trail_ofNames_one hnames, Path.trail_ofNames_one houtNames]
    refine ⟨_, hpath, hrooted, htrail, ?_, ?_⟩
    · rw [FileSpec.isWithin_iff_trail hbase hrooted.isNormal, htrail, List.append_assoc]
      exact List.prefix_append _ _
    · intro heq
      obtain ⟨-, hsame⟩ := Path.ofNames_inj (.inl rfl) (.inl rfl) hnames houtNames heq
      have hlength := congrArg List.length hsame
      simp only [List.length_append, List.length_singleton] at hlength
      omega
  · intro config config' dirs dirs' name name' h h' heq
    obtain ⟨hnames, hpath⟩ := hplace h
    obtain ⟨hnames', hpath'⟩ := hplace h'
    obtain ⟨-, -, rfl⟩ := h.exists_names hrootNames
    obtain ⟨-, -, rfl⟩ := h'.exists_names hrootNames
    -- the places tell the directories and the names, since both end in the same extension
    rw [hpath, hpath', Option.some.injEq] at heq
    obtain ⟨-, hsame⟩ := Path.ofNames_inj (.inl rfl) (.inl rfl) hnames hnames' heq
    rw [List.append_assoc, List.append_assoc, List.append_cancel_left_eq] at hsame
    obtain ⟨hdirs, hlast⟩ := List.append_inj' hsame rfl
    have hname : name = name' := List.append_cancel_right (List.singleton_inj.mp hlast)
    rw [hdirs, hname]

/-- The root may be `/` itself, and the name may hold further points. -/
theorem buildInfoPath_pointedName :
    MirrorsLayout [("composite", .bool true), ("outDir", .str "/w/dist"), ("rootDir", .str "/")]
        "/w/dist" "/" ∧
      LiesBelow "/" "/w/app/..a.b.json" ["w".toList, "app".toList] "..a.b".toList ∧
      ∃ place, buildInfoPath "/"
          [("composite", .bool true), ("outDir", .str "/w/dist"), ("rootDir", .str "/")]
          "/w/app/..a.b.json" = some place ∧
        IsRooted place ∧ trail place = trail "/w/dist" ++ ["w".toList, "app".toList] ++
          ["..a.b".toList ++ ".tsbuildinfo".toList] ∧ isWithin "/w/dist" place ∧
        place ≠ "/w/dist" := by
  have hoptions : MirrorsLayout
      [("composite", .bool true), ("outDir", .str "/w/dist"), ("rootDir", .str "/")]
      "/w/dist" "/" := ⟨by decide, by decide, by decide, rfl, rfl⟩
  have hbelow : LiesBelow "/" "/w/app/..a.b.json" ["w".toList, "app".toList] "..a.b".toList :=
    ⟨by decide, by decide, 'a', by decide, by decide⟩
  exact ⟨hoptions, hbelow, (buildInfoPath_mirrors (by decide) (by decide) hoptions "/").1 hbelow⟩

end TsProject.CompilationUnit

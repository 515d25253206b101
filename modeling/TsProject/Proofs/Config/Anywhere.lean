import TsProject.Proofs.Config.Lists
import TsProject.Proofs.Path.Tidy
import TsProject.Proofs.World.Moved

/-!
# Loading from anywhere

A configuration does not depend on the working directory that it is loaded from. The path that a
caller gives is made absolute first, and everything after that goes by absolute paths: files are
read, bases are looked for and walks begin at absolute paths, which lead to the same place from
everywhere. So the working directory matters only for what a relative path means
(`load_moveTo`).

A first component with a tilde means a home directory, and it is first as soon as the components
in front of it lead nowhere. Behind a working directory it is a name like any other.
-/

namespace TsProject.Config

open TsProject.Path (IsNormal)

variable {w : World} {cwd : Location}

/-! ### Reading and finding -/

theorem readFile_moveTo {path : String} (h : Path.isAbsolute path) :
    readFile (w.moveTo cwd) path = readFile w path := by
  rw [readFile, readFile, World.readText_moveTo h]

theorem isAbsolute_of_mem_ancestors {path dir : String} (h : Path.isAbsolute path)
    (hdir : dir ∈ Path.ancestors path) : Path.isAbsolute dir := by
  obtain ⟨parts, -, rfl⟩ := List.mem_map.mp hdir
  exact Path.isAbsolute_ofNames (by simpa [Path.isAbsolute] using h) parts

theorem isAbsolute_append {path : String} (h : Path.isAbsolute path) (more : String) :
    Path.isAbsolute (path ++ more) := by
  obtain ⟨rest, hrest⟩ := Path.isAbsolute_iff.mp h
  exact Path.isAbsolute_iff.mpr ⟨rest ++ more.toList, by simp [hrest]⟩

/-- **Bases are looked for at absolute paths.** -/
theorem isAbsolute_of_mem_baseCandidates {spec baseDir path : String}
    (h : Path.isAbsolute baseDir) (hpath : path ∈ baseCandidates spec baseDir) :
    Path.isAbsolute path := by
  have hnamed : ∀ dir text more, Path.isAbsolute dir →
      Path.isAbsolute (Path.tidy (Path.child dir text ++ more)) := fun dir text more hdir =>
    Path.isAbsolute_tidy (isAbsolute_append (Path.isAbsolute_child hdir text) more)
  rw [baseCandidates] at hpath
  dsimp only at hpath
  split_ifs at hpath with hplain hjson
  · rw [List.mem_singleton.mp hpath]
    exact Path.isAbsolute_child h spec
  · simp only [List.mem_cons, List.not_mem_nil, or_false] at hpath
    rcases hpath with rfl | rfl
    · exact Path.isAbsolute_child h spec
    · exact hnamed baseDir spec _ h
  all_goals
    obtain ⟨dir, hdir, hpath⟩ := List.mem_flatMap.mp hpath
    have hpackages : Path.isAbsolute (Path.child dir "node_modules") := by
      refine Path.isAbsolute_child ?_ _
      rcases List.mem_cons.mp hdir with rfl | hdir
      · exact h
      · exact isAbsolute_of_mem_ancestors h hdir
    simp only [List.mem_cons, List.not_mem_nil, or_false] at hpath
  · rw [hpath]
    exact Path.isAbsolute_child hpackages spec
  · rcases hpath with rfl | rfl | rfl
    · exact Path.isAbsolute_child hpackages spec
    · exact hnamed _ spec _ hpackages
    · exact Path.isAbsolute_child (Path.isAbsolute_child hpackages spec) _

theorem firstFile?_moveTo {paths : List String} (h : ∀ path ∈ paths, Path.isAbsolute path) :
    firstFile? (w.moveTo cwd) paths = firstFile? w paths := by
  induction paths with
  | nil => rfl
  | cons path paths ih =>
    rw [firstFile?, firstFile?, World.isFile_moveTo (h path (by simp)),
      ih fun path hpath => h path (by simp [hpath])]

theorem mem_of_firstFile? {paths : List String} {path : String}
    (h : firstFile? w paths = .ok (some path)) : path ∈ paths := by
  induction paths with
  | nil => cases Except.ok.inj h
  | cons first paths ih =>
    obtain ⟨isFile, -, h⟩ := bind_ok_iff.mp h
    cases isFile with
    | true => exact Option.some.inj (Except.ok.inj h) ▸ List.mem_cons_self
    | false => exact List.mem_cons_of_mem _ (ih h)

/-- **A base is found from everywhere**, where the configuration is. -/
theorem findBase_moveTo {baseDir : String} (h : Path.isAbsolute baseDir) (spec : String) :
    findBase (w.moveTo cwd) spec baseDir = findBase w spec baseDir := by
  have hcandidates : ∀ path ∈ baseCandidates spec baseDir, Path.isAbsolute path :=
    fun path hpath => isAbsolute_of_mem_baseCandidates h hpath
  rw [findBase, findBase, firstFile?_moveTo hcandidates]
  refine bind_congr_of_ok fun found hfound => ?_
  cases found with
  | none => rw [Option.map_none, Option.map_none]
  | some path =>
    have hpath := hcandidates path (mem_of_firstFile? hfound)
    rw [Option.map_some, Option.map_some, if_pos hpath, if_pos hpath]

/-! ### Collecting -/

/-- **A collection is the same from everywhere.** -/
theorem collectFrom_moveTo {path : String} (h : Path.isAbsolute path) (fuel : Nat)
    (fields : Fields) (chain : List String) :
    collectFrom (w.moveTo cwd) fuel path fields chain = collectFrom w fuel path fields chain := by
  induction fuel generalizing path fields chain with
  | zero => rfl
  | succ fuel ih =>
    have hone : ∀ spec, collectBase (w.moveTo cwd) (collectFrom (w.moveTo cwd) fuel)
        (Path.parent path) chain spec =
          collectBase w (collectFrom w fuel) (Path.parent path) chain spec := by
      intro spec
      rw [collectBase, collectBase, findBase_moveTo (Path.isAbsolute_parent h)]
      refine bind_congr_of_ok fun found hfound => ?_
      cases found with
      | none => rfl
      | some target =>
        -- what is found is an absolute path, and goes on from there
        have htarget := (isNormal_of_findBase hfound).isAbsolute
        simp only [readFile_moveTo htarget, ih htarget]
    rw [collectFrom, collectFrom, funext hone]

theorem collect_moveTo {path : String} (h : Path.isAbsolute path) (fields : Fields) :
    collect (w.moveTo cwd) path fields = collect w path fields :=
  collectFrom_moveTo h _ fields [path]

/-! ### Selecting and finishing -/

theorem matchFiles_moveTo {incl : List String} (h : ∀ path ∈ incl, IsNormal path)
    (exclude extensions : List String) :
    Selection.matchFiles (w.moveTo cwd) incl exclude extensions =
      Selection.matchFiles w incl exclude extensions := by
  rcases Selection.exists_expand_or incl with ⟨specs, hspecs⟩ | ⟨e, he⟩
  · have hroots : ∀ root ∈ FileSpec.walkRoots specs, Path.isAbsolute root := fun root hroot =>
      (FileSpec.isBase_of_mem_walkRoots h hspecs hroot).isNormal.isAbsolute
    have hwalks : (FileSpec.walkRoots specs).flatMap (w.moveTo cwd).walk =
        (FileSpec.walkRoots specs).flatMap w.walk :=
      List.flatMap_congr fun root hroot => World.walk_moveTo (hroots root hroot)
    rw [Selection.matchFiles_eq _ _ _ hspecs, Selection.matchFiles_eq _ _ _ hspecs,
      Selection.candidates, Selection.candidates, hwalks]
  · -- nothing is walked where a specification is refused
    rw [Selection.matchFiles, Selection.matchFiles]
    refine bind_congr_of_ok fun specs hspecs => ?_
    cases he.symm.trans hspecs

theorem finish_moveTo {path : String} {e : Effective}
    (h : ∀ spec ∈ (e.include? (Path.parent path)).getD [], IsNormal spec) (requireInputs : Bool)
    (layerCount : Nat) : finish (w.moveTo cwd) path requireInputs layerCount e =
      finish w path requireInputs layerCount e := by
  rw [finish, finish]
  refine bind_congr_of_ok fun options _ => ?_
  simp only [Selection.select, matchFiles_moveTo h]

/-! ### Locating -/

/-- **No home directory is named**: the path is absolute, or does not begin with a tilde once the
components that lead nowhere are left out. -/
def NamesNoHome (path : String) : Prop :=
  Path.isAbsolute path ∨
    ∀ first ∈ (Path.solidParts path.toList).head?, first.head? ≠ some '~'

theorem expandHome_of_namesNoHome {path : String} (h : NamesNoHome path) :
    expandHome w path = .ok (Path.tidy path) := by
  rw [expandHome, Path.solidParts_tidy, Path.isAbsolute_tidy_eq]
  cases hparts : Path.solidParts path.toList with
  | nil => rfl
  | cons first rest =>
    refine if_pos (Bool.or_eq_true_iff.mpr (h.imp_right fun hfirst => ?_))
    simpa using hfirst first (by simp [hparts])

/-- The configuration file that an absolute path means: it may be the path of its directory. -/
def fileAt (w : World) (path : String) : Except Fault String := do
  let isDir ← (w.isDir path).mapError Fault.os
  return Path.normalize (if isDir then Path.child path defaultName else path)

/-- **Locating** goes by the path behind the working directory. -/
theorem locate_eq_fileAt {path : String} (h : NamesNoHome path) :
    locate w path = fileAt w (Path.tidy (Path.join w.cwdText path)) := by
  have hcwd := w.isAbsolute_cwdText
  have hfull : (if Path.isAbsolute (Path.tidy path) then Path.tidy path
      else Path.child w.cwdText (Path.tidy path)) = Path.tidy (Path.join w.cwdText path) := by
    rw [Path.isAbsolute_tidy_eq]
    split_ifs with habsolute
    · rw [Path.join_of_isAbsolute habsolute]
    · exact Path.tidy_join_tidy hcwd (by simpa using habsolute)
  rw [locate, expandHome_of_namesNoHome h, fileAt, ← hfull]
  simp only [bind, Except.bind]

theorem fileAt_moveTo {path : String} (h : Path.isAbsolute path) :
    fileAt (w.moveTo cwd) path = fileAt w path := by
  rw [fileAt, fileAt, World.isDir_moveTo h]

/-- **A path behind the working directory** means the same file from everywhere. -/
theorem locate_moveTo {path : String} (h : NamesNoHome path) (cwd' : Location) :
    locate (w.moveTo cwd) path =
      locate (w.moveTo cwd') (Path.join (w.moveTo cwd).cwdText path) := by
  have habsolute : Path.isAbsolute (Path.join (w.moveTo cwd).cwdText path) :=
    Path.isAbsolute_join (World.isAbsolute_cwdText _) path
  rw [locate_eq_fileAt h, locate_eq_fileAt (.inl habsolute), Path.join_of_isAbsolute habsolute,
    fileAt_moveTo (Path.isAbsolute_tidy habsolute), fileAt_moveTo (Path.isAbsolute_tidy habsolute)]

/-! ### Loading -/

/-- What follows on locating a configuration. -/
def loadLocated (w : World) (path : String) (requireInputs : Bool) :
    Except Fault (Except LoadError Config) := do
  match ← readFile w path with
  | .error failure => return .error (.unreadable failure)
  | .ok fields =>
    let collected ← collect w path fields
    if collected.problems.isEmpty then
      finish w path requireInputs collected.layers.length (Effective.ofLayers collected.layers)
    else return .error (.invalid path (.problems collected.problems))

theorem load_eq (w : World) (path : String) (requireInputs : Bool) :
    load w path requireInputs =
      locate w path >>= fun located => loadLocated w located requireInputs := rfl

/-- **A located configuration is loaded from everywhere.** -/
theorem loadLocated_moveTo {path : String} (h : IsNormal path) (requireInputs : Bool) :
    loadLocated (w.moveTo cwd) path requireInputs = loadLocated w path requireInputs := by
  rw [loadLocated, loadLocated, readFile_moveTo h.isAbsolute]
  refine bind_congr_of_ok fun outcome hread => ?_
  cases outcome with
  | error failure => rfl
  | ok fields =>
    dsimp only
    rw [collect_moveTo h.isAbsolute]
    refine bind_congr_of_ok fun collected hcollected => ?_
    split_ifs with hproblems
    · -- without problems, the specifications are those of the file and its bases
      have hinherits := inherits_of_collectFrom hread (hasRoom_singleton ⟨h, fields, hread⟩)
        hcollected (List.isEmpty_iff.mp hproblems)
      rw [← Effective.inherited_ofLayers] at hinherits
      exact finish_moveTo (isNormal_of_mem_include? (hinherits.hasNormalLists h)
        (Path.isAbsolute_parent h.isAbsolute)) requireInputs _
    · rfl

/-- **Loading from anywhere.** A path that names no home directory is loaded like the path that
it is behind the working directory, whatever the working directory is then, and the paths of the
configuration are all normal. -/
theorem load_moveTo {path : String} (h : NamesNoHome path) (cwd cwd' : Location)
    (requireInputs : Bool) :
    load (w.moveTo cwd) path requireInputs =
        load (w.moveTo cwd') (Path.join (w.moveTo cwd).cwdText path) requireInputs ∧
      ∀ c, load (w.moveTo cwd) path requireInputs = .ok (.ok c) → c.HasNormalPaths := by
  refine ⟨?_, fun c hload => hasNormalPaths_of_load hload⟩
  rw [load_eq, load_eq, ← locate_moveTo h]
  refine bind_congr_of_ok fun located hlocated => ?_
  have hnormal := isNormal_of_locate hlocated
  rw [loadLocated_moveTo hnormal, loadLocated_moveTo hnormal]

/-- A configuration in a directory. -/
def configIn (dir : String) : World :=
  { nodes := [([dir], .dir), ([dir, "tsconfig.json"], plainFile "\x7b\"files\": []\x7d")]
    env := [("HOME", "/home")] }

/-- The configuration is loaded from its directory, and from the root by the path behind it. -/
theorem load_configIn : ∃ c,
    load ((configIn "p").moveTo ["p"]) "tsconfig.json" false = .ok (.ok c) ∧
      load ((configIn "p").moveTo []) "/p/tsconfig.json" false = .ok (.ok c) ∧
      c.HasNormalPaths := by
  have hloads : (load ((configIn "p").moveTo ["p"]) "tsconfig.json" false).toOption.any
      fun answer => answer.toOption.any fun c => c.path == "/p/tsconfig.json" := by
    decide +kernel
  obtain ⟨answer, hload, hanswer⟩ := exists_ok_of_any hloads
  obtain ⟨c, rfl, -⟩ := exists_ok_of_any hanswer
  have hhome : NamesNoHome "tsconfig.json" := .inr (by decide)
  obtain ⟨hsame, hnormal⟩ := load_moveTo (w := configIn "p") hhome ["p"] [] false
  have hbehind : Path.join ((configIn "p").moveTo ["p"]).cwdText "tsconfig.json" =
      "/p/tsconfig.json" := by decide
  rw [hbehind] at hsame
  exact ⟨c, hload, hsame ▸ hload, hnormal c hload⟩

/-- A path that does not begin with a tilde can name a home directory still. -/
theorem not_forall_load_moveTo :
    ¬ ∀ (w : World) (cwd cwd' : Location) (path : String) (requireInputs : Bool),
      ¬ Text.startsWith path "~" → load (w.moveTo cwd) path requireInputs =
        load (w.moveTo cwd') (Path.join (w.moveTo cwd).cwdText path) requireInputs := by
  intro h
  have hsame := h (configIn "~") [] [] "./~/tsconfig.json" false (by decide)
  have hmissing : (load ((configIn "~").moveTo []) "./~/tsconfig.json" false).toOption.any
      fun answer => answer.toOption.isNone := by
    decide +kernel
  have hfound : (load ((configIn "~").moveTo [])
      (Path.join ((configIn "~").moveTo []).cwdText "./~/tsconfig.json") false).toOption.any
        fun answer => answer.toOption.isSome := by
    decide +kernel
  obtain ⟨answer, hload, hnone⟩ := exists_ok_of_any hmissing
  obtain ⟨other, hother, hsome⟩ := exists_ok_of_any hfound
  obtain rfl := Except.ok.inj ((hsame ▸ hload).symm.trans hother)
  rw [Option.isNone_iff_eq_none.mp hnone] at hsome
  cases hsome

end TsProject.Config

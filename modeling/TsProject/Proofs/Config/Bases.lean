import TsProject.Proofs.Config.Anywhere
import TsProject.Proofs.World.Upward

/-!
# Where a base is found

A base is looked for in a list of places, told by the components of the directory and of the name
(`places`): behind the directory where the name is a path, and in the `node_modules` of the
directory and of those that it is in otherwise, the nearest first. `findBase_spec` says what comes
out: the normal form of the first place that holds a file, nothing where none does, a refusal
where the system refuses to look at a place before that.

What is asked for is the place, and what comes out is its normal form. They are the same file where
the place goes up from no link. Where it does, the normal form may be another file, or none
(`not_forall_isFile_findBase`).
-/

namespace TsProject.Config

open TsProject.Path (IsSolid assemble ofNames rootLength solidParts)

/-! ### The places of a base -/

/-- Some components, the last with `.json` behind it. -/
def withJson (components : List (List Char)) : List (List Char) :=
  components.dropLast ++ [components.getLast?.getD [] ++ ".json".toList]

/-- **The places of a base**, in the order in which they come: of a path the target and then the
target with `.json` behind it, of a package those in the directories that are called
`node_modules`, the nearest first. A name with the extension stands for itself only. -/
def places (spec baseDir : String) : List String :=
  let base := solidParts baseDir.toList
  let name := solidParts spec.toList
  let isNamed := Text.endsWith spec ".json"
  if isPlainPath spec then
    let root := rootLength (if Path.isAbsolute spec then spec else baseDir).toList
    let target := if Path.isAbsolute spec then name else base ++ name
    (if isNamed then [target] else [target, withJson target]).map (ofNames root)
  else
    (List.range (base.length + 1)).reverse.flatMap fun depth =>
      let package := base.take depth ++ ["node_modules".toList] ++ name
      (if isNamed then [package]
       else [package, withJson package, package ++ [defaultName.toList]]).map
        (ofNames (rootLength baseDir.toList))

/-- The places of a package in the `node_modules` of one directory. -/
def packagePlaces (spec dir : String) : List String :=
  let package := Path.child (Path.child dir "node_modules") spec
  if Text.endsWith spec ".json" then [package]
  else [package, Path.tidy (package ++ ".json"), Path.child package defaultName]

theorem isSolid_withJson {components : List (List Char)}
    (h : ∀ part ∈ components, IsSolid part) : ∀ part ∈ withJson components, IsSolid part := by
  have hslash : '/' ∉ components.getLast?.getD [] := by
    cases hlast : components.getLast? with
    | none => simp
    | some part => exact (h part (List.mem_of_getLast? hlast)).noSlash
  refine List.forall_mem_append.mpr ⟨fun part hpart => ?_, List.forall_mem_singleton.mpr ⟨?_, ?_⟩⟩
  · exact h part ((List.dropLast_sublist _).subset hpart)
  · cases components.getLast?.getD [] <;> simp [Path.isIdle]
  · exact List.not_mem_append hslash (by decide)

/-- A text with `.json` behind it is that of these components. -/
theorem ofNames_append_json (k : Nat) (components : List (List Char)) :
    ofNames (k + 1) components ++ ".json" = ofNames (k + 1) (withJson components) := by
  have hheaded : ∀ before last : List (List Char), ∀ part : List Char, last = [part] →
      assemble (k + 1) (before ++ last) =
        List.replicate k '/' ++ (Text.headed '/' before ++ '/' :: part) := by
    rintro before _ part rfl
    cases before with
    | nil => simpa using Path.assemble_succ_cons k part []
    | cons first before => simpa using Path.assemble_succ_cons k first (before ++ [part])
  rw [ofNames, ofNames, ← String.ofList_toList (s := ".json"), ← String.ofList_append]
  congr 1
  obtain rfl | ⟨before, last, rfl⟩ := List.eq_nil_or_concat components
  · rw [Path.assemble_of_pos (Nat.succ_pos k), Path.assemble_of_pos (Nat.succ_pos k)]
    simp [withJson, Text.joinWith]
  · rw [List.concat_eq_append, withJson, List.dropLast_concat, List.getLast?_concat,
      hheaded _ _ _ rfl, hheaded _ _ _ rfl]
    simp

section Places

variable {k : Nat} (hk : k + 1 = 1 ∨ k + 1 = 2) {components : List (List Char)}
variable (h : ∀ part ∈ components, IsSolid part)
include hk h

theorem tidy_append_json : Path.tidy (ofNames (k + 1) components ++ ".json") =
    ofNames (k + 1) (withJson components) := by
  rw [ofNames_append_json, Path.tidy_ofNames hk (isSolid_withJson h)]

/-- The places of a package in one directory. -/
theorem packagePlaces_ofNames {spec : String} (hspec : Path.isAbsolute spec = false) :
    let package := components ++ ["node_modules".toList] ++ solidParts spec.toList
    packagePlaces spec (ofNames (k + 1) components) = (if Text.endsWith spec ".json" then [package]
      else [package, withJson package, package ++ [defaultName.toList]]).map (ofNames (k + 1)) := by
  intro package
  have hmodules : ∀ part ∈ components ++ ["node_modules".toList], IsSolid part :=
    List.forall_mem_append.mpr ⟨h, List.forall_mem_singleton.mpr ⟨by decide, by decide⟩⟩
  have hpackage : ∀ part ∈ package, IsSolid part := List.forall_mem_append.mpr
    ⟨hmodules, fun _ => Path.isSolid_of_mem_solidParts⟩
  have hsolid : solidParts "node_modules".toList = ["node_modules".toList] := by decide
  have hdefault : solidParts defaultName.toList = [defaultName.toList] := by decide
  have hchild : Path.child (Path.child (ofNames (k + 1) components) "node_modules") spec =
      ofNames (k + 1) package := by
    rw [Path.child_ofNames hk h (by decide), hsolid, Path.child_ofNames hk hmodules hspec]
  rw [packagePlaces, hchild, tidy_append_json hk hpackage,
    Path.child_ofNames hk hpackage (by decide), hdefault]
  split_ifs <;> rfl

end Places

/-- The directory of a tidy path and those that it is in, the nearest first. -/
theorem tidy_cons_ancestors (path : String) : Path.tidy path :: Path.ancestors path =
    (List.range ((solidParts path.toList).length + 1)).reverse.map fun depth =>
      ofNames (rootLength path.toList) ((solidParts path.toList).take depth) := by
  rw [List.range_succ, List.reverse_append, List.map_append, Path.ancestors, Path.shorterPrefixes,
    List.map_map]
  simp [Path.tidy, ofNames]

section Candidates

variable {baseDir spec : String} (h : Path.isAbsolute baseDir)
include h

/-- A path is looked for behind the directory, or where it says itself. -/
theorem baseCandidates_of_plain (hplain : isPlainPath spec) :
    baseCandidates spec baseDir = places spec baseDir := by
  have hsolid : ∀ path : String, ∀ part ∈ solidParts path.toList, IsSolid part :=
    fun _ _ => Path.isSolid_of_mem_solidParts
  obtain ⟨k, target, hk, htarget, hchild, hplaces⟩ : ∃ k target, (k + 1 = 1 ∨ k + 1 = 2) ∧
      (∀ part ∈ target, IsSolid part) ∧ Path.child baseDir spec = ofNames (k + 1) target ∧
      places spec baseDir = (if Text.endsWith spec ".json" then [target]
        else [target, withJson target]).map (ofNames (k + 1)) := by
    rw [places, if_pos hplain]
    by_cases hspec : Path.isAbsolute spec
    · obtain ⟨k, hk, hroot⟩ := Path.exists_rootLength_eq hspec
      refine ⟨k, _, hk, hsolid spec, ?_, by simp only [hspec, if_true, hroot]⟩
      rw [Path.child, Path.join_of_isAbsolute hspec, Path.tidy, hroot, ofNames]
    · obtain ⟨k, hk, hroot⟩ := Path.exists_rootLength_eq h
      refine ⟨k, _, hk, List.forall_mem_append.mpr ⟨hsolid baseDir, hsolid spec⟩, ?_,
        by simp only [hspec, if_false, hroot, Bool.false_eq_true]⟩
      rw [Path.child_of_relative h (by simpa using hspec), hroot]
  rw [hplaces, baseCandidates, if_pos hplain, hchild]
  dsimp only
  rw [tidy_append_json hk htarget]
  split_ifs <;> rfl

/-- A package is looked for in the directory and in those that it is in. -/
theorem baseCandidates_of_package (hplain : isPlainPath spec = false) :
    baseCandidates spec baseDir = places spec baseDir := by
  have hspec : Path.isAbsolute spec = false := (Bool.or_eq_false_iff.mp hplain).2
  obtain ⟨k, hk, hroot⟩ := Path.exists_rootLength_eq h
  have htidy : packagePlaces spec baseDir = packagePlaces spec (Path.tidy baseDir) := by
    rw [packagePlaces, packagePlaces, Path.child_of_relative h (by decide),
      Path.child_of_relative (Path.isAbsolute_tidy h) (by decide), Path.rootLength_tidy,
      Path.solidParts_tidy]
  calc baseCandidates spec baseDir
      = (baseDir :: Path.ancestors baseDir).flatMap (packagePlaces spec) := by
        rw [baseCandidates, if_neg (by simp [hplain])]
        rfl
    _ = (Path.tidy baseDir :: Path.ancestors baseDir).flatMap (packagePlaces spec) := by
        rw [List.flatMap_cons, htidy, List.flatMap_cons]
    _ = places spec baseDir := by
        rw [tidy_cons_ancestors, List.flatMap_map, places, if_neg (by simp [hplain])]
        refine List.flatMap_congr fun depth _ => ?_
        rw [hroot]
        exact packagePlaces_ofNames hk
          (fun _ hpart => Path.isSolid_of_mem_solidParts (List.mem_of_mem_take hpart)) hspec

/-- **Where a base is looked for** are its places. -/
theorem baseCandidates_eq : baseCandidates spec baseDir = places spec baseDir := by
  cases hplain : isPlainPath spec with
  | true => exact baseCandidates_of_plain h hplain
  | false => exact baseCandidates_of_package h hplain

end Candidates

/-! ### The first file -/

/-- **The answer of a place** that is reached: those before it hold no file. -/
def AnswersAt (w : World) (paths : List String) (path : String) (answer : Except OsError Bool) :
    Prop :=
  ∃ before after, paths = before ++ path :: after ∧ (∀ other ∈ before, w.isFile other = .ok false) ∧
    w.isFile path = answer

section First

variable {w : World} {paths : List String} {path : String} {answer : Except OsError Bool}

theorem answersAt_cons_iff {first : String} : AnswersAt w (first :: paths) path answer ↔
    (path = first ∧ w.isFile first = answer) ∨
      (w.isFile first = .ok false ∧ AnswersAt w paths path answer) := by
  constructor
  · rintro ⟨before, after, heq, hbefore, hanswer⟩
    cases before with
    | nil =>
      obtain ⟨rfl, -⟩ := List.cons_eq_cons.mp heq
      exact .inl ⟨rfl, hanswer⟩
    | cons other before =>
      obtain ⟨rfl, rfl⟩ := List.cons_eq_cons.mp heq
      obtain ⟨hfirst, hbefore⟩ := List.forall_mem_cons.mp hbefore
      exact .inr ⟨hfirst, before, after, rfl, hbefore, hanswer⟩
  · rintro (⟨rfl, hanswer⟩ | ⟨hfirst, before, after, rfl, hbefore, hanswer⟩)
    · exact ⟨[], paths, rfl, by simp, hanswer⟩
    · exact ⟨first :: before, after, rfl, List.forall_mem_cons.mpr ⟨hfirst, hbefore⟩, hanswer⟩

/-- One place, by the answer there. -/
theorem firstFile?_cons (w : World) (first : String) (paths : List String) :
    firstFile? w (first :: paths) = match w.isFile first with
      | .ok true => .ok (some first)
      | .ok false => firstFile? w paths
      | .error e => .error (.os e) := by
  rw [firstFile?]
  rcases w.isFile first with e | _ | _ <;> rfl

/-- **Asking one place after the other.** -/
theorem firstFile?_spec (w : World) (paths : List String) :
    (firstFile? w paths = .ok none ↔ ∀ path ∈ paths, w.isFile path = .ok false) ∧
    (∀ path, firstFile? w paths = .ok (some path) ↔ AnswersAt w paths path (.ok true)) ∧
    ∀ fault, firstFile? w paths = .error fault ↔
      ∃ path e, AnswersAt w paths path (.error e) ∧ fault = .os e := by
  induction paths with
  | nil => simp [firstFile?, AnswersAt]
  | cons first paths ih =>
    simp only [answersAt_cons_iff, List.forall_mem_cons, firstFile?_cons]
    cases hfirst : w.isFile first with
    | error e => simp [eq_comm]
    | ok isFile =>
      cases isFile with
      | true => simp [eq_comm]
      | false => simpa using ih

end First

/-! ### Finding a base -/

/-- Two paths lead to the same file. -/
def SameFile (w : World) (path path' : String) : Prop :=
  ∃ spot, w.existing path = .ok spot ∧ w.existing path' = .ok spot ∧
    spot.node.any World.isFileNode

variable {w : World} {baseDir : String}

/-- **The normal form of a file** that goes up from no link is the path of the same file. -/
theorem sameFile_normalize {path : String} (h : Path.isAbsolute path)
    (hfile : w.isFile path = .ok true) (hup : w.upFromLink path = false) :
    SameFile w path (Path.normalize path) := by
  rw [World.isFile, World.ask] at hfile
  split at hfile
  · rename_i spot hspot
    exact ⟨spot, hspot, World.existing_normalize h hup hspot, Except.ok.inj hfile⟩
  · cases hfile
  · split_ifs at hfile
    cases hfile

theorem isAbsolute_of_answersAt (hbase : Path.isAbsolute baseDir) {spec path : String}
    {answer : Except OsError Bool} (h : AnswersAt w (places spec baseDir) path answer) :
    Path.isAbsolute path := by
  obtain ⟨before, after, heq, -, -⟩ := h
  have hmem : path ∈ baseCandidates spec baseDir := by
    rw [baseCandidates_eq hbase, heq]
    simp
  exact isAbsolute_of_mem_baseCandidates hbase hmem

/-- What comes out is the normal form of what is found first. -/
theorem findBase_eq_map (hbase : Path.isAbsolute baseDir) (spec : String) :
    findBase w spec baseDir =
      (firstFile? w (places spec baseDir)).map fun found => found.map Path.normalize := by
  rw [findBase, baseCandidates_eq hbase]
  cases hfirst : firstFile? w (places spec baseDir) with
  | error fault => rfl
  | ok found =>
    cases found with
    | none => rfl
    | some path =>
      have habsolute : Path.isAbsolute path :=
        isAbsolute_of_answersAt hbase (((firstFile?_spec w _).2.1 path).mp hfirst)
      simp only [bind, Except.bind, pure, Except.pure, Except.map, Option.map_some, habsolute,
        if_true]

/-- **Finding a base.** Nothing comes out where no place holds a file, and otherwise what the
first place that holds one comes down to, unless the system refuses to look at a place before it.
That is the same file, as long as the place goes up from no link. -/
theorem findBase_spec (hbase : Path.isAbsolute baseDir) (spec : String) :
    (findBase w spec baseDir = .ok none ↔
      ∀ place ∈ places spec baseDir, w.isFile place = .ok false) ∧
    (∀ found, findBase w spec baseDir = .ok (some found) ↔ ∃ place,
      AnswersAt w (places spec baseDir) place (.ok true) ∧ found = Path.normalize place) ∧
    (∀ fault, findBase w spec baseDir = .error fault ↔ ∃ place e,
      AnswersAt w (places spec baseDir) place (.error e) ∧ fault = .os e) ∧
    ∀ place, AnswersAt w (places spec baseDir) place (.ok true) → w.upFromLink place = false →
      SameFile w place (Path.normalize place) := by
  obtain ⟨hnone, hsome, herror⟩ := firstFile?_spec w (places spec baseDir)
  rw [findBase_eq_map hbase]
  refine ⟨?_, ?_, ?_, ?_⟩
  · rw [← hnone]
    rcases firstFile? w (places spec baseDir) with fault | _ | path <;> simp [Except.map]
  · intro found
    simp only [← hsome]
    rcases firstFile? w (places spec baseDir) with fault | _ | path <;>
      simp [Except.map, eq_comm]
  · intro fault
    rw [← herror]
    rcases firstFile? w (places spec baseDir) with fault | found <;> simp [Except.map]
  · intro place hplace hup
    have hfile : w.isFile place = .ok true := by
      obtain ⟨-, -, -, -, hanswer⟩ := hplace
      exact hanswer
    exact sameFile_normalize (isAbsolute_of_answersAt hbase hplace) hfile hup

/-- A package with a directory of its own, and a link to it from elsewhere. Both the package and
the directory that it is in hold a base. -/
def linkedPackage : World :=
  { nodes := [
      (["real"], .dir), (["real", "base.json"], plainFile "\x7b\x7d"),
      (["real", "pkg"], .dir), (["real", "pkg", "base.json"], plainFile "\x7b\x7d"),
      (["real", "pkg", "src"], .dir), (["app"], .link "real/pkg")] }

/-- Up from a directory of the package the base of the package is found, through the link as
well. -/
theorem findBase_besideSource : Path.isAbsolute "/app/src" ∧
    findBase linkedPackage "../base" "/app/src" = .ok (some "/app/base.json") ∧
    SameFile linkedPackage "/app/src/../base.json" "/app/base.json" := by
  have hbase : Path.isAbsolute "/app/src" := by decide
  have hplace : AnswersAt linkedPackage (places "../base" "/app/src") "/app/src/../base.json"
      (.ok true) :=
    ⟨["/app/src/../base"], [], by decide, by decide +kernel, by decide +kernel⟩
  have hup : linkedPackage.upFromLink "/app/src/../base.json" = false := by decide +kernel
  have hnormal : "/app/base.json" = Path.normalize "/app/src/../base.json" := by decide
  obtain ⟨-, hfound, -, hsame⟩ := findBase_spec (w := linkedPackage) hbase "../base"
  exact ⟨hbase, (hfound _).mpr ⟨_, hplace, hnormal⟩, hnormal ▸ hsame _ hplace hup⟩

/-- Up from the link itself the system goes to the directory of the package, but what comes out is
beside the link. -/
theorem not_forall_isFile_findBase :
    ¬ ∀ (w : World) (spec baseDir found : String), Path.isAbsolute baseDir →
      findBase w spec baseDir = .ok (some found) → w.isFile found = .ok true := by
  intro h
  have hfound : findBase linkedPackage "../base.json" "/app" = .ok (some "/base.json") := by
    decide +kernel
  have hnone : linkedPackage.isFile "/base.json" = .ok false := by decide +kernel
  rw [h linkedPackage _ _ _ (by decide) hfound] at hnone
  cases hnone

end TsProject.Config

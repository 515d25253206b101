import Mathlib.Data.List.Chain
import TsProject.Proofs.Config.Problems

/-!
# Files that extend themselves

A collection goes down from file to file, with no record but the chain of the files above. It
ends all the same, since a chain holds no file twice: `Collects` describes it without any bound
on how far it goes down, and `collects_iff` says that the bounded one is the only collection in
this sense.

It comes down every way that does not come back to a file, and where the next file is one of the
chain it reports a circle. So the circles that are reported are exactly the ways along `Extends`
whose last file is the first one that they come back to (`IsCircle`), and there is one exactly
where some way comes back to a file at all. That holds of every collection that answers
(`circular_mem_problems_iff`); one that ends in a fault reports nothing.
-/

namespace TsProject.Config

open Relation (ReflTransGen)
open TsProject.Path (IsNormal)

variable {w : World}

/-! ### Collections without a bound -/

/-- **A collection**, however far it goes down: a file of the wrong shape adds its problems, and
any other one adds its bases and then itself. `descend` is what collections of the bases that are
new to the chain and can be read come to. -/
inductive Collects (w : World) :
    (chain : List String) → (path : String) → Fields → Except Fault Collected → Prop
  | badShape {chain : List String} {path : String} {fields : Fields}
    {found : List ShapeProblem} : Document.ofFields fields = .error found →
      Collects w chain path fields (.ok ⟨[], found.map (.shape path)⟩)
  | file {chain : List String} {path : String} {fields : Fields} {doc : Document}
    (descend : String → Fields → List String → Except Fault Collected) :
    Document.ofFields fields = .ok doc →
    (∀ spec ∈ doc.bases.getD [], ∀ target targetFields,
      findBase w spec (Path.parent path) = .ok (some target) → target ∉ chain →
      readFile w target = .ok (.ok targetFields) →
        Collects w (chain ++ [target]) target targetFields
          (descend target targetFields (chain ++ [target]))) →
      Collects w chain path fields (do
        let bases ← collectBases (collectBase w descend (Path.parent path) chain)
          (doc.bases.getD [])
        return bases ++ ownLayer doc path)

theorem collectBases_congr {collectOne collectOne' : String → Except Fault Collected}
    {specs : List String} (h : ∀ spec ∈ specs, collectOne spec = collectOne' spec) :
    collectBases collectOne specs = collectBases collectOne' specs := by
  induction specs with
  | nil => rfl
  | cons spec specs ih =>
    rw [collectBases, collectBases, h spec (by simp), ih fun spec hspec => h spec (by simp [hspec])]

/-- What a base adds depends on its collection only where it is collected. -/
theorem collectBase_congr
    {descend descend' : String → Fields → List String → Except Fault Collected}
    {baseDir spec : String} {chain : List String}
    (h : ∀ target fields, findBase w spec baseDir = .ok (some target) → target ∉ chain →
      readFile w target = .ok (.ok fields) →
        descend target fields (chain ++ [target]) = descend' target fields (chain ++ [target])) :
    collectBase w descend baseDir chain spec = collectBase w descend' baseDir chain spec := by
  rw [collectBase, collectBase]
  refine bind_congr_of_ok fun found hfound => ?_
  cases found with
  | none => rfl
  | some target =>
    dsimp only
    split_ifs with hchain
    · rfl
    · refine bind_congr_of_ok fun outcome hread => ?_
      cases outcome with
      | error failure => rfl
      | ok fields => exact h target fields hfound (by simpa using hchain) hread

/-- **A file has one collection only.** -/
theorem Collects.unique {chain : List String} {path : String} {fields : Fields}
    {a b : Except Fault Collected} (ha : Collects w chain path fields a)
    (hb : Collects w chain path fields b) : a = b := by
  induction ha generalizing b with
  | badShape hdoc =>
    cases hb with
    | badShape hdoc' =>
      obtain rfl := Except.error.inj (hdoc.symm.trans hdoc')
      rfl
    | file _ hdoc' _ => cases hdoc.symm.trans hdoc'
  | @file chain path fields doc descend hdoc _ ih =>
    cases hb with
    | badShape hdoc' => cases hdoc.symm.trans hdoc'
    | file descend' hdoc' hbases' =>
      obtain rfl := Except.ok.inj (hdoc.symm.trans hdoc')
      have hsame : ∀ spec ∈ doc.bases.getD [],
          collectBase w descend (Path.parent path) chain spec =
            collectBase w descend' (Path.parent path) chain spec := fun spec hspec =>
        collectBase_congr fun target targetFields hfound hnew hread =>
          ih spec hspec target targetFields hfound hnew hread
            (hbases' spec hspec target targetFields hfound hnew hread)
      rw [collectBases_congr hsame]

/-- **With room below its chain**, a collection does not come to its bound. -/
theorem collects_collectFrom {fuel : Nat} {path : String} {fields : Fields} {chain : List String}
    (hroom : HasRoom w chain fuel) :
    Collects w chain path fields (collectFrom w fuel path fields chain) := by
  induction fuel generalizing path fields chain with
  | zero =>
    obtain ⟨n, hn⟩ := hroom.exists_succ
    cases hn
  | succ fuel ih =>
    rw [collectFrom]
    cases hdoc : Document.ofFields fields with
    | error found => exact .badShape hdoc
    | ok doc =>
      refine .file (collectFrom w fuel) hdoc fun spec _ target targetFields hfound hnew hread => ?_
      -- the chain gets longer by a file that is new to it
      exact ih (hroom.append hnew ⟨isNormal_of_findBase hfound, targetFields, hread⟩)

/-- **Every collection ends**, and in what `collect` comes to. -/
theorem collects_iff {root : String} {fields : Fields} (hroot : IsNormal root)
    (hread : readFile w root = .ok (.ok fields)) {outcome : Except Fault Collected} :
    Collects w [root] root fields outcome ↔ outcome = collect w root fields := by
  have hcollects : Collects w [root] root fields (collect w root fields) := by
    rw [collect]
    exact collects_collectFrom (hasRoom_singleton ⟨hroot, fields, hread⟩)
  constructor
  · exact fun h => h.unique hcollects
  · intro h
    rwa [h]

/-- **A collection answers** exactly when every file that can be reached can be looked at. -/
theorem exists_collect_iff {root : String} {fields : Fields} (hroot : IsNormal root)
    (hread : readFile w root = .ok (.ok fields)) :
    (∃ collected, collect w root fields = .ok collected) ↔
      ∀ file, ReflTransGen (Extends w) root file → IsSound w file := by
  constructor
  · rintro ⟨collected, hcollected⟩ file hreach
    exact isSound_of_collectFrom (way_of_reached hreach) hread
      (hasRoom_singleton ⟨hroot, fields, hread⟩) hcollected
  · exact fun h => exists_collectFrom _ hread h [root]

/-! ### Walks -/

/-- **A walk** from a file to one of its bases, to one of theirs, and so on. -/
structure IsWalk (w : World) (root : String) (files : List String) : Prop where
  head : files.head? = some root
  extends_next : files.IsChain (Extends w)

/-- **A circle**: a walk whose last file is one of those before it, and the first to come again. -/
def IsCircle (w : World) (root : String) (files : List String) : Prop :=
  IsWalk w root files ∧ ∃ before target, files = before ++ [target] ∧ before.Nodup ∧ target ∈ before

theorem isWalk_singleton (root : String) : IsWalk w root [root] :=
  ⟨rfl, List.isChain_singleton root⟩

/-- A walk goes on along `Extends`. -/
theorem isWalk_append_singleton_iff {root last target : String} {files : List String}
    (hlast : files.getLast? = some last) :
    IsWalk w root (files ++ [target]) ↔ IsWalk w root files ∧ Extends w last target := by
  have hne : files ≠ [] := by
    rintro rfl
    cases hlast
  have hhead : (files ++ [target]).head? = files.head? := List.head?_append_of_ne_nil _ hne
  have hchain : (files ++ [target]).IsChain (Extends w) ↔
      files.IsChain (Extends w) ∧ Extends w last target := by
    rw [List.isChain_append]
    simp [hlast]
  constructor
  · rintro ⟨hroot, hextends⟩
    obtain ⟨hfiles, htarget⟩ := hchain.mp hextends
    exact ⟨⟨hhead.symm.trans hroot, hfiles⟩, htarget⟩
  · rintro ⟨⟨hroot, hfiles⟩, htarget⟩
    exact ⟨hhead.trans hroot, hchain.mpr ⟨hfiles, htarget⟩⟩

theorem IsWalk.of_append {root : String} {first second : List String}
    (h : IsWalk w root (first ++ second)) (hne : first ≠ []) : IsWalk w root first where
  head := (List.head?_append_of_ne_nil _ hne).symm.trans h.head
  extends_next := h.extends_next.left_of_append

/-- A list that comes back to one of its members does so for a first time. -/
theorem exists_first_repetition {files : List String} (h : ¬ files.Nodup) :
    ∃ before target after, files = before ++ [target] ++ after ∧ before.Nodup ∧
      target ∈ before := by
  induction files using List.reverseRecOn with
  | nil => exact absurd List.nodup_nil h
  | append_singleton files target ih =>
    by_cases hnodup : files.Nodup
    · refine ⟨files, target, [], (List.append_nil _).symm, hnodup, ?_⟩
      by_contra hnew
      exact h (List.concat_eq_append ▸ List.Nodup.concat hnew hnodup)
    · obtain ⟨before, first, after, rfl, hbefore, hfirst⟩ := ih hnodup
      exact ⟨before, first, after ++ [target], by simp, hbefore, hfirst⟩

/-- **A walk that comes back to a file** goes round a circle first. -/
theorem exists_isCircle_iff {root : String} :
    (∃ files, IsCircle w root files) ↔ ∃ files, IsWalk w root files ∧ ¬ files.Nodup := by
  constructor
  · rintro ⟨files, hwalk, before, target, rfl, -, hmem⟩
    refine ⟨_, hwalk, fun hnodup => ?_⟩
    exact (List.nodup_append.mp hnodup).2.2 target hmem target (by simp) rfl
  · rintro ⟨files, hwalk, hrepeats⟩
    obtain ⟨before, target, after, rfl, hnodup, hmem⟩ := exists_first_repetition hrepeats
    exact ⟨before ++ [target], hwalk.of_append (by simp), before, target, rfl, hnodup, hmem⟩

/-! ### What is visited, as walks -/

/-- **A visited file** ends a walk that comes to no file twice: the files above it, itself among
them. -/
theorem Visits.isWalk {root path file : String} {chain above : List String}
    (h : Visits w chain path above file) (hwalk : IsWalk w root chain) (hnodup : chain.Nodup)
    (hlast : chain.getLast? = some path) :
    IsWalk w root above ∧ above.Nodup ∧ above.getLast? = some file := by
  induction h with
  | here => exact ⟨hwalk, hnodup, hlast⟩
  | base hextends hnew _ ih =>
    exact ih ((isWalk_append_singleton_iff hlast).mpr ⟨hwalk, hextends⟩)
      (List.concat_eq_append ▸ List.Nodup.concat hnew hnodup) (by simp)

/-- A visit goes on to a base that is new. -/
theorem Visits.tail {path file target : String} {chain above : List String}
    (h : Visits w chain path above file) (hextends : Extends w file target)
    (hnew : target ∉ above) : Visits w chain path (above ++ [target]) target := by
  induction h with
  | here => exact .base hextends hnew (.here _ _)
  | base hextends' hnew' _ ih => exact .base hextends' hnew' (ih hextends hnew)

/-- **A walk that comes to no file twice** is one that a collection goes down. -/
theorem visits_of_isWalk {root file : String} {files : List String} (hwalk : IsWalk w root files)
    (hnodup : files.Nodup) (hlast : files.getLast? = some file) :
    Visits w [root] root files file := by
  induction files using List.reverseRecOn generalizing file with
  | nil => cases hlast
  | append_singleton files last ih =>
    obtain rfl : last = file := by simpa using hlast
    cases hbefore : files.getLast? with
    | none =>
      obtain rfl := List.getLast?_eq_none_iff.mp hbefore
      obtain rfl : last = root := by simpa using hwalk.head
      exact .here _ _
    | some before =>
      obtain ⟨hwalk, hextends⟩ := (isWalk_append_singleton_iff hbefore).mp hwalk
      obtain ⟨hfiles, -, hnew⟩ := List.nodup_append.mp hnodup
      refine (ih hwalk hfiles hbefore).tail hextends fun hmem => ?_
      exact hnew last hmem last (by simp) rfl

/-! ### Circles -/

/-- **The circles that are reported** are those that there are. -/
theorem circular_mem_problems_iff {root : String} {fields : Fields} {collected : Collected}
    (hroot : IsNormal root) (hread : readFile w root = .ok (.ok fields))
    (h : collect w root fields = .ok collected) (files : List String) :
    .circular files ∈ collected.problems ↔ IsCircle w root files := by
  rw [mem_problems_iff hread (hasRoom_singleton ⟨hroot, fields, hread⟩) h]
  constructor
  · rintro ⟨above, file, hvisits, hreports⟩
    obtain ⟨hwalk, hnodup, hlast⟩ :=
      hvisits.isWalk (isWalk_singleton root) (List.nodup_singleton root) rfl
    cases hreports with
    | circular hextends hmem =>
      exact ⟨(isWalk_append_singleton_iff hlast).mpr ⟨hwalk, hextends⟩, above, _, rfl, hnodup, hmem⟩
  · rintro ⟨hwalk, before, target, rfl, hnodup, hmem⟩
    obtain ⟨file, hlast⟩ : ∃ file, before.getLast? = some file :=
      Option.isSome_iff_exists.mp (List.getLast?_isSome.mpr (List.ne_nil_of_mem hmem))
    obtain ⟨hwalk, hextends⟩ := (isWalk_append_singleton_iff hlast).mp hwalk
    exact ⟨before, file, visits_of_isWalk hwalk hnodup hlast, .circular hextends hmem⟩

/-- **Files that extend themselves.** The collection of a file that can be read ends. It answers
unless some file that is reached cannot be looked at, and then it reports exactly the circles
that there are, each with its files in order: one at least where some walk comes back to a file,
and none where files are only reached in several ways. -/
theorem collect_circles {root : String} {fields : Fields} (hroot : IsNormal root)
    (hread : readFile w root = .ok (.ok fields)) :
    (∀ outcome, Collects w [root] root fields outcome ↔ outcome = collect w root fields) ∧
    ((∃ collected, collect w root fields = .ok collected) ↔
      ∀ file, ReflTransGen (Extends w) root file → IsSound w file) ∧
    ∀ collected, collect w root fields = .ok collected →
      (∀ files, .circular files ∈ collected.problems ↔ IsCircle w root files) ∧
      ((∃ files, .circular files ∈ collected.problems) ↔
        ∃ files, IsWalk w root files ∧ ¬ files.Nodup) ∧
      ∀ files, IsCircle w root files → ∃ p ∈ collected.problems, p.message =
        "Circularity detected while resolving configuration: " ++ " -> ".intercalate files := by
  refine ⟨fun outcome => collects_iff hroot hread, exists_collect_iff hroot hread,
    fun collected hcollected => ?_⟩
  have hcircles := circular_mem_problems_iff hroot hread hcollected
  refine ⟨hcircles, ?_, fun files hcircle => ⟨_, (hcircles files).mpr hcircle, rfl⟩⟩
  rw [← exists_isCircle_iff]
  exact exists_congr hcircles

/-- A base that is found by looking. -/
theorem extends_of_any {path target : String} (spec : String)
    (h : (readFile w path).toOption.any fun answer => answer.toOption.any fun fields =>
      (Document.ofFields fields).toOption.any fun doc => (doc.bases.getD []).contains spec)
    (hfound : findBase w spec (Path.parent path) = .ok (some target)) :
    Extends w path target := by
  obtain ⟨answer, hread, hanswer⟩ := exists_ok_of_any h
  obtain ⟨fields, rfl, hfields⟩ := exists_ok_of_any hanswer
  obtain ⟨doc, hdoc, hbases⟩ := exists_ok_of_any hfields
  exact .base hread hdoc (List.contains_iff_mem.mp hbases) hfound

/-- Two files that extend one another. -/
def twoFileCircle : World :=
  { nodes := [
      (["a.json"], plainFile "\x7b\"extends\": \"./tsconfig.json\"\x7d"),
      (["tsconfig.json"], plainFile "\x7b\"extends\": \"./a.json\"\x7d")] }

/-- The collection of one of them reports both, and the first again. -/
theorem collect_twoFileCircle : ∃ fields collected,
    readFile twoFileCircle "/tsconfig.json" = .ok (.ok fields) ∧
      Collects twoFileCircle ["/tsconfig.json"] "/tsconfig.json" fields (.ok collected) ∧
      ∃ p ∈ collected.problems, p.message = "Circularity detected while resolving " ++
        "configuration: /tsconfig.json -> /a.json -> /tsconfig.json" := by
  have hanswers : (readFile twoFileCircle "/tsconfig.json").toOption.any fun answer =>
      answer.toOption.any fun fields =>
        (collect twoFileCircle "/tsconfig.json" fields).toOption.isSome := by
    decide +kernel
  obtain ⟨answer, hread, hanswer⟩ := exists_ok_of_any hanswers
  obtain ⟨fields, rfl, hcollect⟩ := exists_ok_of_any hanswer
  have hthere : Extends twoFileCircle "/tsconfig.json" "/a.json" :=
    extends_of_any "./a.json" (by decide +kernel) (by decide +kernel)
  have hback : Extends twoFileCircle "/a.json" "/tsconfig.json" :=
    extends_of_any "./tsconfig.json" (by decide +kernel) (by decide +kernel)
  obtain ⟨hends, -, hcircles⟩ := collect_circles (by decide) hread
  cases hcollected : collect twoFileCircle "/tsconfig.json" fields with
  | error fault =>
    rw [hcollected] at hcollect
    cases hcollect
  | ok collected =>
    obtain ⟨-, -, hreported⟩ := hcircles collected hcollected
    have hcircle : IsCircle twoFileCircle "/tsconfig.json"
        ["/tsconfig.json", "/a.json", "/tsconfig.json"] :=
      ⟨⟨rfl, by simp [hthere, hback]⟩, ["/tsconfig.json", "/a.json"], "/tsconfig.json", rfl,
        by decide, by decide⟩
    exact ⟨fields, collected, hread, (hends _).mpr hcollected.symm, hreported _ hcircle⟩

/-- A file that extends a link to a name that the system refuses, before it extends itself. The
name has few characters, of four bytes each. -/
def refusedCircle : World :=
  { nodes := [
      (["l.json"], .link (String.ofList (List.replicate 64 (Char.ofNat 65536)))),
      (["tsconfig.json"], plainFile
        "\x7b\"extends\": [\"./l.json\", \"./tsconfig.json\"]\x7d")] }

/-- A walk may come back to a file without any circle being reported: the collection gives up
before it comes to it. -/
theorem not_forall_circular_reported :
    ¬ ∀ (w : World) (root : String) (fields : Fields), IsNormal root →
      readFile w root = .ok (.ok fields) →
      ((∃ collected files, collect w root fields = .ok collected ∧
          .circular files ∈ collected.problems) ↔
        ∃ files, IsWalk w root files ∧ ¬ files.Nodup) := by
  intro h
  have hgivesUp : (readFile refusedCircle "/tsconfig.json").toOption.any fun answer =>
      answer.toOption.any fun fields =>
        (collect refusedCircle "/tsconfig.json" fields).toOption.isNone := by
    decide +kernel
  obtain ⟨answer, hread, hanswer⟩ := exists_ok_of_any hgivesUp
  obtain ⟨fields, rfl, hnone⟩ := exists_ok_of_any hanswer
  have hitself : Extends refusedCircle "/tsconfig.json" "/tsconfig.json" :=
    extends_of_any "./tsconfig.json" (by decide +kernel) (by decide +kernel)
  obtain ⟨collected, -, hcollected, -⟩ :=
    (h refusedCircle "/tsconfig.json" fields (by decide) hread).mpr
      ⟨["/tsconfig.json", "/tsconfig.json"], ⟨rfl, by simp [hitself]⟩, by decide⟩
  rw [hcollected] at hnone
  cases hnone

end TsProject.Config

import TsProject.Proofs.Config.Answers
import TsProject.Proofs.Config.Shape

/-!
# Problems of configurations

A collection goes down from a file to its bases (`Visits`) and gathers what is reported of each
file that it comes to (`Reports`): everything on the way and nothing else, because one problem
does not keep it from the others. `mem_problems_iff` says so, by induction on the files that may
still be gone down in one direction, and along the way in the other.
-/

namespace TsProject.Config

open Relation (ReflTransGen)

/-! ### What is visited -/

/-- **Visiting**: from `path`, below the files of `chain`, a collection comes to `file`, below
those of `above`. It goes down to bases that are new to the chain. -/
inductive Visits (w : World) :
    (chain : List String) → (path : String) → (above : List String) → (file : String) → Prop
  | here (chain : List String) (path : String) : Visits w chain path chain path
  | base {chain above : List String} {path target file : String} :
    Extends w path target → target ∉ chain → Visits w (chain ++ [target]) target above file →
      Visits w chain path above file

variable {w : World} {chain above : List String} {path file target : String}

theorem Extends.exists_fields (h : Extends w path target) :
    ∃ fields, readFile w path = .ok (.ok fields) := by
  obtain ⟨hread, -, -, -⟩ := h
  exact ⟨_, hread⟩

theorem Extends.isNormal (h : Extends w path target) : TsProject.Path.IsNormal target := by
  obtain ⟨-, -, -, hfound⟩ := h
  exact isNormal_of_findBase hfound

theorem Visits.reached (h : Visits w chain path above file) :
    ReflTransGen (Extends w) path file := by
  induction h with
  | here chain path => exact .refl
  | base hextends _ _ ih => exact .head hextends ih

/-! ### What is reported -/

/-- **The problems with a file** that has been read, below the files of `chain`. -/
inductive Reports (w : World) (chain : List String) (path : String) : ConfigProblem → Prop
  | shape {fields : Fields} {problem : ShapeProblem} :
    readFile w path = .ok (.ok fields) → problem ∈ Document.problems fields →
      Reports w chain path (.shape path problem)
  | option {fields : Fields} {doc : Document} {problem : OptionProblem} :
    readFile w path = .ok (.ok fields) → Document.ofFields fields = .ok doc →
    problem ∈ CompilerOptions.problems (doc.compilerOptions.getD []) →
      Reports w chain path (.option problem)
  | baseNotFound {fields : Fields} {doc : Document} {spec : String} :
    readFile w path = .ok (.ok fields) → Document.ofFields fields = .ok doc →
    spec ∈ doc.bases.getD [] → findBase w spec (Path.parent path) = .ok none →
      Reports w chain path (.baseNotFound spec)
  | circular {target : String} : Extends w path target → target ∈ chain →
      Reports w chain path (.circular (chain ++ [target]))
  | unreadable {target : String} {failure : ReadFailure} : Extends w path target →
    target ∉ chain → readFile w target = .ok (.error failure) →
      Reports w chain path (.unreadable failure)

variable {fuel : Nat} {fields : Fields} {doc : Document} {collected : Collected}
  {p : ConfigProblem}

theorem ofFields_eq_error_iff {found : List ShapeProblem} :
    Document.ofFields fields = .error found ↔ Document.problems fields = found ∧ found ≠ [] := by
  rw [Document.ofFields]
  split
  · rename_i hnone
    simp only [reduceCtorEq, false_iff]
    rintro ⟨rfl, hne⟩
    exact hne hnone
  · rename_i hsome
    simp only [Except.error.injEq]
    exact ⟨fun h => ⟨h, h ▸ hsome⟩, fun h => h.1⟩

theorem problems_eq_nil_of_ofFields (h : Document.ofFields fields = .ok doc) :
    Document.problems fields = [] := by
  rw [Document.ofFields] at h
  split at h
  · assumption
  · cases h

theorem problems_ownLayer : (ownLayer doc path).problems =
    (CompilerOptions.problems (doc.compilerOptions.getD [])).map .option := by
  rw [ownLayer, Layer.ofDocument, CompilerOptions.load, CompilerOptions.check]
  cases CompilerOptions.problems (doc.compilerOptions.getD []) <;> rfl

theorem mem_problems_collectBases_iff {collectOne : String → Except Fault Collected}
    {specs : List String} (h : collectBases collectOne specs = .ok collected) :
    p ∈ collected.problems ↔
      ∃ spec ∈ specs, ∃ one, collectOne spec = .ok one ∧ p ∈ one.problems := by
  induction specs generalizing collected with
  | nil =>
    obtain rfl := Except.ok.inj h
    simp
  | cons spec specs ih =>
    obtain ⟨first, hfirst, h⟩ := bind_ok_iff.mp h
    obtain ⟨others, hothers, h⟩ := bind_ok_iff.mp h
    obtain rfl := Except.ok.inj h
    have happend : p ∈ (first ++ others).problems ↔ p ∈ first.problems ∨ p ∈ others.problems :=
      List.mem_append
    rw [happend, ih hothers]
    simp [hfirst]

/-- **What one base adds**: a problem with it, or what it leads to. -/
theorem collectBase_cases {descend : String → Fields → List String → Except Fault Collected}
    {baseDir spec : String} (h : collectBase w descend baseDir chain spec = .ok collected) :
    (findBase w spec baseDir = .ok none ∧ collected = .problem (.baseNotFound spec)) ∨
    ∃ target, findBase w spec baseDir = .ok (some target) ∧
      ((target ∈ chain ∧ collected = .problem (.circular (chain ++ [target]))) ∨
      target ∉ chain ∧
        ((∃ failure, readFile w target = .ok (.error failure) ∧
          collected = .problem (.unreadable failure)) ∨
        ∃ fields, readFile w target = .ok (.ok fields) ∧
          descend target fields (chain ++ [target]) = .ok collected)) := by
  obtain ⟨found, hfound, h⟩ := bind_ok_iff.mp h
  cases found with
  | none => exact .inl ⟨hfound, (Except.ok.inj h).symm⟩
  | some target =>
    refine .inr ⟨target, hfound, ?_⟩
    dsimp only at h
    split_ifs at h with hchain
    · exact .inl ⟨by simpa using hchain, (Except.ok.inj h).symm⟩
    · refine .inr ⟨by simpa using hchain, ?_⟩
      obtain ⟨outcome, hread, h⟩ := bind_ok_iff.mp h
      cases outcome with
      | error failure => exact .inl ⟨failure, hread, (Except.ok.inj h).symm⟩
      | ok fields => exact .inr ⟨fields, hread, h⟩

/-- **What a file and its bases add**, for a file whose shape is right. -/
theorem mem_problems_collectFrom_iff (hdoc : Document.ofFields fields = .ok doc)
    (h : collectFrom w (fuel + 1) path fields chain = .ok collected) :
    p ∈ collected.problems ↔
      (∃ spec ∈ doc.bases.getD [], ∃ one,
        collectBase w (collectFrom w fuel) (Path.parent path) chain spec = .ok one ∧
          p ∈ one.problems) ∨
      ∃ problem ∈ CompilerOptions.problems (doc.compilerOptions.getD []),
        .option problem = p := by
  rw [collectFrom, hdoc] at h
  obtain ⟨bases, hbases, h⟩ := bind_ok_iff.mp h
  obtain rfl := Except.ok.inj h
  rw [← mem_problems_collectBases_iff hbases, ← List.mem_map, ← problems_ownLayer]
  exact List.mem_append

/-- Of a file whose shape is wrong, that is all that is gathered. -/
theorem problems_of_ofFields_eq_error {found : List ShapeProblem}
    (hdoc : Document.ofFields fields = .error found)
    (h : collectFrom w (fuel + 1) path fields chain = .ok collected) :
    collected.problems = (Document.problems fields).map (.shape path) := by
  rw [collectFrom, hdoc] at h
  obtain rfl := Except.ok.inj h
  rw [(ofFields_eq_error_iff.mp hdoc).1]

/-- **Everything that is gathered** has been met on the way. -/
theorem exists_visits_of_mem_problems (hread : readFile w path = .ok (.ok fields))
    (h : collectFrom w fuel path fields chain = .ok collected) (hp : p ∈ collected.problems) :
    ∃ above file, Visits w chain path above file ∧ Reports w above file p := by
  induction fuel generalizing path fields chain collected with
  | zero =>
    obtain rfl := Except.ok.inj h
    cases hp
  | succ fuel ih =>
    cases hdoc : Document.ofFields fields with
    | error found =>
      rw [problems_of_ofFields_eq_error hdoc h] at hp
      obtain ⟨problem, hproblem, rfl⟩ := List.mem_map.mp hp
      exact ⟨chain, path, .here _ _, .shape hread hproblem⟩
    | ok doc =>
      rcases (mem_problems_collectFrom_iff hdoc h).mp hp with
        ⟨spec, hspec, one, hone, hp⟩ | ⟨problem, hproblem, rfl⟩
      · rcases collectBase_cases hone with ⟨hfound, rfl⟩ | ⟨target, hfound, hcases⟩
        · obtain rfl := List.mem_singleton.mp hp
          exact ⟨chain, path, .here _ _, .baseNotFound hread hdoc hspec hfound⟩
        · have hextends : Extends w path target := .base hread hdoc hspec hfound
          rcases hcases with ⟨hchain, rfl⟩ | ⟨hnew, hcases⟩
          · obtain rfl := List.mem_singleton.mp hp
            exact ⟨chain, path, .here _ _, .circular hextends hchain⟩
          · rcases hcases with ⟨failure, hfailure, rfl⟩ | ⟨targetFields, htarget, hdescend⟩
            · obtain rfl := List.mem_singleton.mp hp
              exact ⟨chain, path, .here _ _, .unreadable hextends hnew hfailure⟩
            · obtain ⟨above, file, hvisits, hreports⟩ := ih htarget hdescend hp
              exact ⟨above, file, .base hextends hnew hvisits, hreports⟩
      · exact ⟨chain, path, .here _ _, .option hread hdoc hproblem⟩

/-- **A base** of a file that is collected is collected, and its problems are gathered. -/
theorem exists_collectBase_of_extends (hread : readFile w path = .ok (.ok fields))
    (h : collectFrom w (fuel + 1) path fields chain = .ok collected)
    (hextends : Extends w path target) :
    ∃ one, one.problems ⊆ collected.problems ∧
      ((target ∈ chain ∧ one = .problem (.circular (chain ++ [target]))) ∨
      target ∉ chain ∧
        ((∃ failure, readFile w target = .ok (.error failure) ∧
          one = .problem (.unreadable failure)) ∨
        ∃ fields, readFile w target = .ok (.ok fields) ∧
          collectFrom w fuel target fields (chain ++ [target]) = .ok one)) := by
  obtain ⟨hread', hdoc, hspec, hfound⟩ := hextends
  obtain rfl := Except.ok.inj (Except.ok.inj (hread.symm.trans hread'))
  obtain ⟨one, hone⟩ := exists_collectBase_of_collectFrom h hdoc hspec
  refine ⟨one, fun p hp => ?_, ?_⟩
  · exact (mem_problems_collectFrom_iff hdoc h).mpr (.inl ⟨_, hspec, one, hone, hp⟩)
  · rcases collectBase_cases hone with ⟨hnone, -⟩ | ⟨other, hother, hcases⟩
    · cases hfound.symm.trans hnone
    · obtain rfl := Option.some.inj (Except.ok.inj (hfound.symm.trans hother))
      exact hcases

/-- **What a file has reported** is gathered. -/
theorem mem_problems_of_reports (hread : readFile w path = .ok (.ok fields))
    (h : collectFrom w (fuel + 1) path fields chain = .ok collected)
    (hp : Reports w chain path p) : p ∈ collected.problems := by
  have hsame : ∀ {fields'}, readFile w path = .ok (.ok fields') → fields' = fields :=
    fun hread' => Except.ok.inj (Except.ok.inj (hread'.symm.trans hread))
  cases hp with
  | @shape fields' _ hread' hproblem =>
    obtain rfl := hsame hread'
    cases hdoc : Document.ofFields fields' with
    | error found =>
      rw [problems_of_ofFields_eq_error hdoc h]
      exact List.mem_map_of_mem hproblem
    | ok doc =>
      rw [problems_eq_nil_of_ofFields hdoc] at hproblem
      cases hproblem
  | option hread' hdoc hproblem =>
    obtain rfl := hsame hread'
    exact (mem_problems_collectFrom_iff hdoc h).mpr (.inr ⟨_, hproblem, rfl⟩)
  | @baseNotFound _ doc spec hread' hdoc hspec hfound =>
    obtain rfl := hsame hread'
    obtain ⟨one, hone⟩ := exists_collectBase_of_collectFrom h hdoc hspec
    refine (mem_problems_collectFrom_iff hdoc h).mpr (.inl ⟨spec, hspec, one, hone, ?_⟩)
    rcases collectBase_cases hone with ⟨-, rfl⟩ | ⟨target, htarget, -⟩
    · exact List.mem_singleton_self _
    · cases hfound.symm.trans htarget
  | circular hextends hchain =>
    obtain ⟨one, hsubset, ⟨-, rfl⟩ | ⟨hnew, -⟩⟩ := exists_collectBase_of_extends hread h hextends
    · exact hsubset (List.mem_singleton_self _)
    · exact absurd hchain hnew
  | unreadable hextends hnew hfailure =>
    obtain ⟨one, hsubset, ⟨hchain, -⟩ | ⟨-, hcases⟩⟩ :=
      exists_collectBase_of_extends hread h hextends
    · exact absurd hchain hnew
    · rcases hcases with ⟨failure, hfailure', rfl⟩ | ⟨fields', hread', -⟩
      · obtain rfl := Except.error.inj (Except.ok.inj (hfailure.symm.trans hfailure'))
        exact hsubset (List.mem_singleton_self _)
      · cases hfailure.symm.trans hread'

/-- A file that reports anything has been read. -/
theorem Reports.exists_fields (h : Reports w chain path p) :
    ∃ fields, readFile w path = .ok (.ok fields) := by
  cases h with
  | shape hread => exact ⟨_, hread⟩
  | option hread => exact ⟨_, hread⟩
  | baseNotFound hread => exact ⟨_, hread⟩
  | circular hextends => exact hextends.exists_fields
  | unreadable hextends => exact hextends.exists_fields

/-- **Everything that is met** on the way is gathered. -/
theorem mem_problems_of_visits (hvisits : Visits w chain path above file)
    (hp : Reports w above file p) (hread : readFile w path = .ok (.ok fields))
    (hroom : HasRoom w chain fuel) (h : collectFrom w fuel path fields chain = .ok collected) :
    p ∈ collected.problems := by
  induction hvisits generalizing fuel fields collected with
  | here chain path =>
    obtain ⟨fuel, rfl⟩ := hroom.exists_succ
    exact mem_problems_of_reports hread h hp
  | @base chain above path target file hextends hnew hvisits ih =>
    obtain ⟨fuel, rfl⟩ := hroom.exists_succ
    obtain ⟨one, hsubset, ⟨hchain, -⟩ | ⟨-, hcases⟩⟩ :=
      exists_collectBase_of_extends hread h hextends
    · exact absurd hchain hnew
    · rcases hcases with ⟨failure, hfailure, -⟩ | ⟨targetFields, htarget, hdescend⟩
      · -- nothing is reported behind a base that cannot be read
        obtain ⟨targetFields, htarget⟩ : ∃ fields, readFile w target = .ok (.ok fields) := by
          cases hvisits with
          | here => exact hp.exists_fields
          | base hextends => exact hextends.exists_fields
        cases hfailure.symm.trans htarget
      · have hfile : IsConfigFile w target := ⟨hextends.isNormal, _, htarget⟩
        exact hsubset (ih hp htarget (hroom.append hnew hfile) hdescend)

/-- **What is gathered** is what is met on the way, no more and no less. -/
theorem mem_problems_iff (hread : readFile w path = .ok (.ok fields))
    (hroom : HasRoom w chain fuel) (h : collectFrom w fuel path fields chain = .ok collected) :
    p ∈ collected.problems ↔
      ∃ above file, Visits w chain path above file ∧ Reports w above file p := by
  constructor
  · exact exists_visits_of_mem_problems hread h
  · rintro ⟨above, file, hvisits, hreports⟩
    exact mem_problems_of_visits hvisits hreports hread hroom h

end TsProject.Config

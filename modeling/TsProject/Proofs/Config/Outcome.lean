import TsProject.Proofs.Config.Problems
import TsProject.Proofs.Text.Lines

/-!
# Outcomes of loading

Loading has one of three outcomes: an unreadable file (`IsUnreadable`), an invalid configuration,
or a configuration. A configuration is invalid when something is wrong with one of its files
(`HasFlaw`), and otherwise when what it amounts to has an open-ended specification or selects no
input where one is required (`Inherited.IsInvalid`). `load_outcome` says this, and that no flaw
hides another: each has a problem that names it (`Names`) and whose text is part of the message.
-/

namespace TsProject

open Relation (ReflTransGen)

namespace Config

/-! ### Unreadable files -/

/-- **A file that is no configuration**: it has no text, its text is no data, or its data is no
object. -/
inductive IsUnreadable (w : World) (path : String) : Prop
  | noText {e : World.TextError} : w.readText path = .error e → IsUnreadable w path
  | noData {text : String} {e : Json.ReadError} : w.readText path = .ok text →
    Json.readRelaxed text = .error e → IsUnreadable w path
  | noObject {text : String} {v : Json} : w.readText path = .ok text →
    Json.readRelaxed text = .ok v → (∀ members, v ≠ .obj members) → IsUnreadable w path

variable {w : World} {path : String}

/-- A configuration is the object that its text holds. -/
theorem readFile_eq_ok_iff {fields : Fields} : readFile w path = .ok (.ok fields) ↔
    ∃ text, w.readText path = .ok text ∧ Json.readRelaxed text = .ok (.obj fields) := by
  rw [readFile]
  cases w.readText path with
  | error e =>
    cases e with
    | decoding e => simp
    | access e =>
      cases e with
      | embeddedNull => simp
      | refused e => by_cases hmissing : e.cause = .noSuchFile <;> simp [hmissing]
  | ok text =>
    simp only [Except.ok.injEq, exists_eq_left', parseText]
    cases Json.readRelaxed text with
    | ok v => cases v <;> simp
    | error e => cases e <;> simp

/-- **A file that has been looked at** is a configuration or cannot be read as one. -/
theorem exists_failure_iff {outcome : Except ReadFailure Fields}
    (h : readFile w path = .ok outcome) :
    (∃ failure, outcome = .error failure) ↔ IsUnreadable w path := by
  have hok : (∃ fields, outcome = .ok fields) ↔ ¬IsUnreadable w path := by
    have hfields : ∀ fields, outcome = .ok fields ↔
        ∃ text, w.readText path = .ok text ∧ Json.readRelaxed text = .ok (.obj fields) := by
      intro fields
      rw [← readFile_eq_ok_iff, h, Except.ok.injEq]
    simp only [hfields]
    constructor
    · rintro ⟨fields, text, htext, hvalue⟩ (hnone | ⟨htext', hnone⟩ | ⟨htext', hvalue', hnone⟩)
      · cases htext.symm.trans hnone
      · obtain rfl := Except.ok.inj (htext.symm.trans htext')
        cases hvalue.symm.trans hnone
      · obtain rfl := Except.ok.inj (htext.symm.trans htext')
        exact hnone fields (Except.ok.inj (hvalue.symm.trans hvalue')).symm
    · intro hreadable
      cases htext : w.readText path with
      | error e => exact absurd (.noText htext) hreadable
      | ok text =>
        cases hvalue : Json.readRelaxed text with
        | error e => exact absurd (.noData htext hvalue) hreadable
        | ok v =>
          by_cases hobject : ∃ members, v = .obj members
          · obtain ⟨members, rfl⟩ := hobject
            exact ⟨members, text, rfl, hvalue⟩
          · exact absurd (.noObject htext hvalue (not_exists.mp hobject)) hreadable
  cases outcome with
  | error failure => simpa using hok
  | ok fields => simpa using hok

/-- A failure names the file. -/
theorem path_of_readFile_eq_error {failure : ReadFailure}
    (h : readFile w path = .ok (.error failure)) : failure.path = path := by
  rw [readFile] at h
  split at h
  · rw [parseText] at h
    split at h <;> cases h <;> rfl
  · cases h
  · split_ifs at h <;> cases h <;> rfl
  · cases h
    rfl

/-! ### Flawed files -/

/-- What can be wrong with a file. -/
inductive Flaw where
  /-- A known field holds what it may not. -/
  | field (key : String)
  /-- A key of the compiler options is no option, or its value is not of its kind. -/
  | option (key : String)
  /-- A base leads to no file. -/
  | missingBase (spec : String)
  /-- A base is no configuration. -/
  | unreadableBase (target : String)
  /-- A base is one of the files above. -/
  | circularBase (target : String)
  deriving DecidableEq, Repr

/-- **What is wrong** with a file that has been read, below the files of `chain`. -/
inductive HasFlaw (w : World) (chain : List String) (path : String) : Flaw → Prop
  | field {fields : Fields} {key : String} : readFile w path = .ok (.ok fields) →
    key ∈ Document.knownKeys fields → ¬Document.Holds key (Document.valueOf fields key) →
      HasFlaw w chain path (.field key)
  | option {fields : Fields} {doc : Document} {key : String} {v : Json} :
    readFile w path = .ok (.ok fields) → Document.ofFields fields = .ok doc →
    (doc.compilerOptions.getD []).get? key = some v → ¬CompilerOptions.IsOption key v →
      HasFlaw w chain path (.option key)
  | missingBase {fields : Fields} {doc : Document} {spec : String} :
    readFile w path = .ok (.ok fields) → Document.ofFields fields = .ok doc →
    spec ∈ doc.bases.getD [] → findBase w spec (Path.parent path) = .ok none →
      HasFlaw w chain path (.missingBase spec)
  | unreadableBase {target : String} : Extends w path target → target ∉ chain →
    IsUnreadable w target → HasFlaw w chain path (.unreadableBase target)
  | circularBase {target : String} : Extends w path target → target ∈ chain →
      HasFlaw w chain path (.circularBase target)

/-- A file that something is wrong with has been read. -/
theorem HasFlaw.exists_fields {w : World} {chain : List String} {path : String} {flaw : Flaw}
    (h : HasFlaw w chain path flaw) : ∃ fields, readFile w path = .ok (.ok fields) := by
  cases h with
  | field hread => exact ⟨_, hread⟩
  | option hread => exact ⟨_, hread⟩
  | missingBase hread => exact ⟨_, hread⟩
  | unreadableBase hextends => exact hextends.exists_fields
  | circularBase hextends => exact hextends.exists_fields

/-- **A problem names a flaw** of the file, below the files of `chain`. -/
inductive Names (chain : List String) (path : String) : ConfigProblem → Flaw → Prop
  | field {problem : ShapeProblem} {key : String} : problem.place.head? = some key →
      Names chain path (.shape path problem) (.field key)
  | option (problem : OptionProblem) : Names chain path (.option problem) (.option problem.key)
  | missingBase (spec : String) : Names chain path (.baseNotFound spec) (.missingBase spec)
  | unreadableBase (failure : ReadFailure) :
      Names chain path (.unreadable failure) (.unreadableBase failure.path)
  | circularBase (target : String) :
      Names chain path (.circular (chain ++ [target])) (.circularBase target)

/-- **A flawed configuration**: something is wrong with a file that is visited. -/
def IsFlawed (w : World) (root : String) : Prop :=
  ∃ above file flaw, Visits w [root] root above file ∧ HasFlaw w above file flaw

variable {chain above : List String} {file root : String} {flaw : Flaw} {p : ConfigProblem}

/-- **Every flaw is reported** by a problem that names it. -/
theorem exists_reports_of_hasFlaw (h : HasFlaw w chain path flaw)
    (hbases : ∀ target, Extends w path target → ∃ outcome, readFile w target = .ok outcome) :
    ∃ p, Reports w chain path p ∧ Names chain path p flaw := by
  cases h with
  | field hread hkey hholds =>
    obtain ⟨problem, hproblem, hplace⟩ := Document.exists_problem_iff.mpr ⟨hkey, hholds⟩
    exact ⟨_, .shape hread hproblem, .field hplace⟩
  | option hread hdoc hv hnot =>
    obtain ⟨problem, hproblem, rfl⟩ := CompilerOptions.exists_problem_iff.mpr ⟨_, hv, hnot⟩
    exact ⟨_, .option hread hdoc hproblem, .option problem⟩
  | missingBase hread hdoc hspec hfound =>
    exact ⟨_, .baseNotFound hread hdoc hspec hfound, .missingBase _⟩
  | unreadableBase hextends hnew hunreadable =>
    obtain ⟨outcome, hread⟩ := hbases _ hextends
    obtain ⟨failure, rfl⟩ := (exists_failure_iff hread).mpr hunreadable
    obtain rfl := path_of_readFile_eq_error hread
    exact ⟨_, .unreadable hextends hnew hread, .unreadableBase failure⟩
  | circularBase hextends hchain => exact ⟨_, .circular hextends hchain, .circularBase _⟩

/-- **Every problem reported** names a flaw. -/
theorem exists_flaw_of_reports (h : Reports w chain path p) :
    ∃ flaw, HasFlaw w chain path flaw ∧ Names chain path p flaw := by
  cases h with
  | @shape fields problem hread hproblem =>
    rw [Document.problems_eq_flatMap] at hproblem
    obtain ⟨key, hkey, hfield⟩ := List.mem_flatMap.mp hproblem
    have hholds := (Document.fieldProblems_eq_nil_iff hkey).not.mp (List.ne_nil_of_mem hfield)
    exact ⟨_, .field hread hkey hholds, .field (Document.head?_of_mem_fieldProblems hfield)⟩
  | @option fields doc problem hread hdoc hproblem =>
    obtain ⟨v, hv, hnot⟩ := CompilerOptions.exists_problem_iff.mp ⟨problem, hproblem, rfl⟩
    exact ⟨_, .option hread hdoc hv hnot, .option problem⟩
  | baseNotFound hread hdoc hspec hfound =>
    exact ⟨_, .missingBase hread hdoc hspec hfound, .missingBase _⟩
  | circular hextends hchain => exact ⟨_, .circularBase hextends hchain, .circularBase _⟩
  | @unreadable target failure hextends hnew hread =>
    obtain rfl := path_of_readFile_eq_error hread
    have hunreadable := (exists_failure_iff hread).mp ⟨failure, rfl⟩
    exact ⟨_, .unreadableBase hextends hnew hunreadable, .unreadableBase failure⟩

end Config

/-! ### Finishing -/

/-- The last component of the specification stands for any directories. -/
def FileSpec.IsOpenEnded (spec : String) : Prop :=
  (Text.splitOnChar '/' spec.toList).getLast? = some anyDirsName

theorem FileSpec.exists_expand_iff {spec : String} :
    (∃ full, .ok full = expand spec) ↔ ¬IsOpenEnded spec := by
  have hlast : (Text.splitOnChar '/' spec.toList).getLast?.getD [] = anyDirsName ↔
      IsOpenEnded spec := by
    rw [IsOpenEnded]
    cases (Text.splitOnChar '/' spec.toList).getLast? with
    | none => simp [anyDirsName]
    | some last => simp
  rw [← hlast, expand]
  dsimp only
  split_ifs with hopen hdir
  · simp [hopen]
  · simp [hopen]
  · simp [hopen]

/-- **A specification is at fault** exactly when one is open-ended. -/
theorem Selection.exists_badSpec_iff {w : World} {files : Option (List String)}
    {incl exclude : List String} {allowScripts : Bool} :
    (∃ e, select w files incl exclude allowScripts = .error (.badSpec e)) ↔
      ∃ spec ∈ incl, FileSpec.IsOpenEnded spec := by
  have hvalid : (∃ specs : List String, incl.map FileSpec.expand = specs.map .ok) ↔
      ∀ spec ∈ incl, ¬FileSpec.IsOpenEnded spec := by
    simp only [eq_comm (a := incl.map FileSpec.expand), exists_map_iff, List.forall_mem_map,
      FileSpec.exists_expand_iff]
  rcases exists_expand_or incl with ⟨specs, hspecs⟩ | ⟨e, he⟩
  · refine iff_of_false ?_ (by simpa using hvalid.mp ⟨specs, hspecs⟩)
    rintro ⟨e, he⟩
    rw [select, matchFiles_eq w _ _ hspecs] at he
    split_ifs at he <;> cases he
  · refine iff_of_true ⟨e, by rw [select, matchFiles, he]; rfl⟩ ?_
    by_contra hnone
    obtain ⟨specs, hspecs⟩ := hvalid.mpr (by simpa using hnone)
    cases he.symm.trans (mapM_expand_eq hspecs)

namespace Inherited

/-- The exclude specifications in the end. -/
def excluded (e : Inherited) (dir : String) : List String :=
  e.excl.getD (packageDirs.map (Path.resolve dir) ++
    ["outDir", "declarationDir"].filterMap fun key =>
      ((e.options key).bind Json.text?).map Path.normalize)

/-- Scripts are inputs too. -/
def allowsScripts (e : Inherited) : Bool :=
  match e.options "allowJs" with
  | some (.bool true) => true
  | _ => false

/-- **What is selected.** -/
def select (e : Inherited) (w : World) (dir : String) : Except SelectError Selection :=
  Selection.select w e.files (e.included dir) (e.excluded dir) e.allowsScripts

/-- **What makes no configuration** although nothing is wrong with any file: an open-ended
specification, or no input where one is required. -/
inductive IsInvalid (e : Inherited) (w : World) (dir : String) (requireInputs : Bool) : Prop
  | openEnded {spec : String} : spec ∈ e.included dir → FileSpec.IsOpenEnded spec →
      IsInvalid e w dir requireInputs
  | noInputs {s : Selection} : requireInputs → e.select w dir = .ok s → s.files = [] →
      IsInvalid e w dir requireInputs

end Inherited

namespace Config

/-- What is selected in the end is what the values inherited select. -/
theorem select_of_finalOptions {w : World} {dir : String} {e : Effective} {options : Fields}
    (h : e.finalOptions = .ok options) :
    Selection.select w e.files ((e.include? dir).getD []) (e.exclude dir options)
      (match options.get? "allowJs" with
        | some (.bool true) => true
        | _ => false) = e.inherited.select w dir := by
  have hget := (get?_of_finalOptions h).1
  have hexclude : e.exclude dir options = e.inherited.excluded dir := by
    simp only [Effective.exclude, Effective.implicitExclude, Inherited.excluded,
      List.filterMap_cons, hget "outDir" (by decide), hget "declarationDir" (by decide)]
    rfl
  rw [getD_include?, hexclude, hget "allowJs" (by decide)]
  rfl

/-- **Finishing** makes a configuration, unless what is inherited is invalid. -/
theorem finish_cases {w : World} {path : String} {requireInputs : Bool} {layerCount : Nat}
    {e : Effective} {answer : Except LoadError Config}
    (h : finish w path requireInputs layerCount e = .ok answer) :
    (e.inherited.IsInvalid w (Path.parent path) requireInputs ∧
      ∃ cause, (∀ found, cause ≠ .problems found) ∧ answer = .error (.invalid path cause)) ∨
    (¬e.inherited.IsInvalid w (Path.parent path) requireInputs ∧ ∃ c, answer = .ok c) := by
  obtain ⟨options, hoptions, h⟩ := bind_ok_iff.mp h
  dsimp only at h
  generalize houtcome : Selection.select w e.files _ _ _ = outcome at h
  obtain rfl := houtcome.symm.trans (select_of_finalOptions hoptions)
  have hopen : (∃ bad, e.inherited.select w (Path.parent path) = .error (.badSpec bad)) ↔
      ∃ spec ∈ e.inherited.included (Path.parent path), FileSpec.IsOpenEnded spec :=
    Selection.exists_badSpec_iff
  cases hselect : e.inherited.select w (Path.parent path) with
  | error failure =>
    rw [hselect] at h
    cases failure with
    | embeddedNull => cases h
    | badSpec bad =>
      obtain ⟨spec, hspec, hwild⟩ := hopen.mp ⟨bad, hselect⟩
      exact .inl ⟨.openEnded hspec hwild, _, by simp, (Except.ok.inj h).symm⟩
  | ok s =>
    rw [hselect] at h
    dsimp only at h
    have hclosed : ¬∃ spec ∈ e.inherited.included (Path.parent path),
        FileSpec.IsOpenEnded spec := by
      rw [← hopen, hselect]
      rintro ⟨bad, ⟨⟩⟩
    by_cases hinputs : requireInputs ∧ s.files = []
    · rw [if_pos (by simpa using hinputs)] at h
      refine .inl ⟨.noInputs hinputs.1 hselect hinputs.2, _, ?_, (Except.ok.inj h).symm⟩
      intro found
      split_ifs <;> simp
    · rw [if_neg (by simpa using hinputs)] at h
      refine .inr ⟨?_, _, (Except.ok.inj h).symm⟩
      rintro (⟨hspec, hwild⟩ | ⟨hrequired, hselect', hnone⟩)
      · exact hclosed ⟨_, hspec, hwild⟩
      · obtain rfl := Except.ok.inj (hselect.symm.trans hselect')
        exact hinputs ⟨hrequired, hnone⟩

/-! ### Loading -/

section Loading

variable {w : World} {path root : String} {requireInputs : Bool}
  {answer : Except LoadError Config} {fields : Fields} {collected : Collected}

/-- The text of every problem stands in the message. -/
theorem infix_message_of_mem {found : List ConfigProblem} {p : ConfigProblem} (h : p ∈ found) :
    p.message.toList <:+: (LoadError.invalid root (.problems found)).message.toList := by
  rw [LoadError.message, InvalidCause.messages, String.toList_intercalate, List.map_map]
  exact Text.infix_intercalate_of_mem (List.mem_map_of_mem h)

/-- **Every flaw that is met** has a problem of its own, where all files reached can be looked
at. -/
theorem exists_problem_of_hasFlaw (hlocated : locate w path = .ok root)
    (hread : readFile w root = .ok (.ok fields))
    (hcollected : collect w root fields = .ok collected)
    (hsound : ∀ file, ReflTransGen (Extends w) root file → IsSound w file)
    {above : List String} {file : String} {flaw : Flaw} (hvisits : Visits w [root] root above file)
    (hflaw : HasFlaw w above file flaw) : ∃ p ∈ collected.problems, Names above file p flaw := by
  have hfile : IsConfigFile w root := ⟨isNormal_of_locate hlocated, fields, hread⟩
  obtain ⟨p, hreports, hnames⟩ := exists_reports_of_hasFlaw hflaw fun target hextends =>
    (hsound target (hvisits.reached.tail hextends)).exists_readFile
  exact ⟨p, (mem_problems_iff hread (hasRoom_singleton hfile) hcollected).mpr
    ⟨above, file, hvisits, hreports⟩, hnames⟩

/-- What is visited with a flaw starts at a file that has been read. -/
theorem not_isUnreadable_of_isFlawed (h : IsFlawed w root) : ¬IsUnreadable w root := by
  obtain ⟨above, file, flaw, hvisits, hflaw⟩ := h
  obtain ⟨fields, hread⟩ : ∃ fields, readFile w root = .ok (.ok fields) := by
    cases hvisits with
    | here => exact hflaw.exists_fields
    | base hextends => exact hextends.exists_fields
  rw [← exists_failure_iff hread]
  rintro ⟨failure, ⟨⟩⟩

/-- **The outcome of loading** a configuration whose file is `root`, in terms of the files. -/
structure IsOutcome (w : World) (root : String) (requireInputs : Bool)
    (answer : Except LoadError Config) : Prop where
  unreadable : (∃ failure, answer = .error (.unreadable failure)) ↔ IsUnreadable w root
  invalid : (∃ cause, answer = .error (.invalid root cause)) ↔ ¬IsUnreadable w root ∧
    (IsFlawed w root ∨ ¬IsFlawed w root ∧
      ∃ e, Inherits w root e ∧ e.IsInvalid w (Path.parent root) requireInputs)
  loaded : (∃ c, answer = .ok c) ↔ ¬IsUnreadable w root ∧ ¬IsFlawed w root ∧
    ∃ e, Inherits w root e ∧ ¬e.IsInvalid w (Path.parent root) requireInputs
  /-- No flaw hides another: each has a problem of its own, whose text is part of the message. -/
  named : ∀ above file flaw, Visits w [root] root above file → HasFlaw w above file flaw →
    ∃ found, answer = .error (.invalid root (.problems found)) ∧
      ∃ p ∈ found, Names above file p flaw ∧
        p.message.toList <:+: (LoadError.invalid root (.problems found)).message.toList
  /-- All problems are about flaws. -/
  met : ∀ found, answer = .error (.invalid root (.problems found)) → ∀ p ∈ found,
    ∃ above file flaw, Visits w [root] root above file ∧ HasFlaw w above file flaw ∧
      Names above file p flaw

theorem isOutcome_of_unreadable {failure : ReadFailure}
    (hread : readFile w root = .ok (.error failure)) :
    IsOutcome w root requireInputs (.error (.unreadable failure)) := by
  have hunreadable : IsUnreadable w root := (exists_failure_iff hread).mp ⟨failure, rfl⟩
  have hflawless : ¬IsFlawed w root := fun h => not_isUnreadable_of_isFlawed h hunreadable
  refine ⟨?_, ?_, ?_, ?_, ?_⟩
  · simpa using hunreadable
  · simp [hunreadable]
  · simp [hunreadable]
  · exact fun above file flaw hvisits hflaw => absurd ⟨above, file, flaw, hvisits, hflaw⟩ hflawless
  · simp

theorem isOutcome_of_problems {found : List ConfigProblem} (hne : found ≠ [])
    (hnamed : ∀ above file flaw, Visits w [root] root above file → HasFlaw w above file flaw →
      ∃ p ∈ found, Names above file p flaw)
    (hmet : ∀ p ∈ found, ∃ above file flaw, Visits w [root] root above file ∧
      HasFlaw w above file flaw ∧ Names above file p flaw) :
    IsOutcome w root requireInputs (.error (.invalid root (.problems found))) := by
  have hflawed : IsFlawed w root := by
    obtain ⟨p, hp⟩ := List.exists_mem_of_ne_nil _ hne
    obtain ⟨above, file, flaw, hvisits, hflaw, -⟩ := hmet p hp
    exact ⟨above, file, flaw, hvisits, hflaw⟩
  have hreadable := not_isUnreadable_of_isFlawed hflawed
  refine ⟨?_, ?_, ?_, ?_, ?_⟩
  · simpa using hreadable
  · simp [hreadable, hflawed]
  · simp [hflawed]
  · intro above file flaw hvisits hflaw
    obtain ⟨p, hp, hnames⟩ := hnamed above file flaw hvisits hflaw
    exact ⟨found, rfl, p, hp, hnames, infix_message_of_mem hp⟩
  · simpa using hmet

theorem isOutcome_of_inherits {e : Inherited} (hreadable : ¬IsUnreadable w root)
    (hflawless : ¬IsFlawed w root) (he : Inherits w root e)
    (h : (e.IsInvalid w (Path.parent root) requireInputs ∧
        ∃ cause, (∀ found, cause ≠ .problems found) ∧ answer = .error (.invalid root cause)) ∨
      (¬e.IsInvalid w (Path.parent root) requireInputs ∧ ∃ c, answer = .ok c)) :
    IsOutcome w root requireInputs answer := by
  have hinvalid : (∃ other, Inherits w root other ∧
      other.IsInvalid w (Path.parent root) requireInputs) ↔
        e.IsInvalid w (Path.parent root) requireInputs :=
    ⟨fun ⟨other, hother, h⟩ => hother.unique he ▸ h, fun h => ⟨e, he, h⟩⟩
  have hvalid : (∃ other, Inherits w root other ∧
      ¬other.IsInvalid w (Path.parent root) requireInputs) ↔
        ¬e.IsInvalid w (Path.parent root) requireInputs :=
    ⟨fun ⟨other, hother, h⟩ => hother.unique he ▸ h, fun h => ⟨e, he, h⟩⟩
  have hnamed : ∀ {above file flaw}, Visits w [root] root above file →
      ¬HasFlaw w above file flaw :=
    fun hvisits hflaw => hflawless ⟨_, _, _, hvisits, hflaw⟩
  rcases h with ⟨hcause, cause, hother, rfl⟩ | ⟨hvalue, c, rfl⟩
  · refine ⟨?_, ?_, ?_, fun _ _ _ hvisits hflaw => absurd hflaw (hnamed hvisits), ?_⟩
    · simpa using hreadable
    · simp [hreadable, hflawless, hinvalid, hcause]
    · simp [hvalid, hcause]
    · simp [hother]
  · refine ⟨?_, ?_, ?_, fun _ _ _ hvisits hflaw => absurd hflaw (hnamed hvisits), ?_⟩
    · simpa using hreadable
    · simp [hreadable, hflawless, hinvalid, hvalue]
    · simp [hreadable, hflawless, hvalid, hvalue]
    · simp

/-- **Outcomes of loading.** Whenever loading answers, the answer is the outcome that the files
lead to. -/
theorem load_outcome (h : load w path requireInputs = .ok answer) :
    ∃ root, locate w path = .ok root ∧ IsOutcome w root requireInputs answer := by
  obtain ⟨root, hlocated, -⟩ := bind_ok_iff.mp h
  refine ⟨root, hlocated, ?_⟩
  obtain ⟨outcome, hread, hcollect⟩ := exists_readFile_of_load hlocated h
  cases outcome with
  | error failure =>
    have hload : load w path requireInputs = .ok (.error (.unreadable failure)) := by
      rw [load]
      simp only [hlocated, hread, bind, Except.bind]
      rfl
    obtain rfl := Except.ok.inj (hload.symm.trans h)
    exact isOutcome_of_unreadable hread
  | ok fields =>
    obtain ⟨collected, hcollected⟩ := hcollect fields rfl
    have hsound : ∀ file, ReflTransGen (Extends w) root file → IsSound w file :=
      fun file hreached => isSound_of_load hlocated h hreached
    have hnamed : ∀ above file flaw, Visits w [root] root above file →
        HasFlaw w above file flaw → ∃ p ∈ collected.problems, Names above file p flaw :=
      fun above file flaw hvisits hflaw =>
        exists_problem_of_hasFlaw hlocated hread hcollected hsound hvisits hflaw
    rw [load_of_collect hlocated hread hcollected] at h
    split_ifs at h with hproblems
    · have hnone := List.isEmpty_iff.mp hproblems
      have hflawless : ¬IsFlawed w root := by
        rintro ⟨above, file, flaw, hvisits, hflaw⟩
        obtain ⟨p, hp, -⟩ := hnamed above file flaw hvisits hflaw
        rw [hnone] at hp
        cases hp
      have hreadable : ¬IsUnreadable w root := by
        rw [← exists_failure_iff hread]
        rintro ⟨failure, ⟨⟩⟩
      exact isOutcome_of_inherits hreadable hflawless
        (inherits_of_collect hlocated hread hcollected hnone) (finish_cases h)
    · obtain rfl := Except.ok.inj h
      refine isOutcome_of_problems (fun hnone => hproblems (List.isEmpty_iff.mpr hnone)) hnamed ?_
      intro p hp
      obtain ⟨above, file, hvisits, hreports⟩ := exists_visits_of_mem_problems hread hcollected hp
      obtain ⟨flaw, hflaw, hnames⟩ := exists_flaw_of_reports hreports
      exact ⟨above, file, flaw, hvisits, hflaw, hnames⟩

end Loading

/-- A configuration with a base that is missing and one with a value of the wrong kind. -/
def flawedBases : World :=
  { nodes := [
      (["base.json"], plainFile "\x7b\"compilerOptions\": \x7b\"strict\": 1\x7d\x7d"),
      (["tsconfig.json"], plainFile "\x7b\"extends\": [\"./none.json\", \"./base.json\"]\x7d")] }

theorem load_flawedBases : (load flawedBases "/tsconfig.json" true).toOption.any fun answer =>
    match answer with
    | .error (.invalid _ (.problems [_, _])) => true
    | _ => false := by
  decide +kernel

/-- The configuration is invalid, with a problem for each of its bases. -/
theorem outcome_flawedBases : ∃ answer root,
    load flawedBases "/tsconfig.json" true = .ok answer ∧
      (∃ other p q, answer = .error (.invalid other (.problems [p, q]))) ∧
      locate flawedBases "/tsconfig.json" = .ok root ∧ IsOutcome flawedBases root true answer := by
  obtain ⟨answer, hload, hinvalid⟩ := exists_ok_of_any load_flawedBases
  obtain ⟨root, hlocated, houtcome⟩ := load_outcome hload
  split at hinvalid
  · exact ⟨_, root, hload, ⟨_, _, _, rfl⟩, hlocated, houtcome⟩
  · cases hinvalid

end Config

end TsProject

import Mathlib.Logic.Relation
import TsProject.Proofs.Config.Collect

/-!
# Files that a configuration leads to

`Extends` leads from a file to each of its bases. A collection goes along it without coming back
to a file of the chain (`Way`), and still it reaches every file that can be reached at all
(`way_of_reached`), because a way that comes back to a file can be cut short. A file that amounts
to anything leads back to no file above it, so that its collection has no problems
(`problems_of_inherits`).
-/

namespace TsProject.Config

open Relation (ReflTransGen TransGen)

variable {w : World}

/-- **From a file to its bases**, as they are found. -/
inductive Extends (w : World) : (path target : String) → Prop
  | base {path spec target : String} {fields : Fields} {doc : Document} :
    readFile w path = .ok (.ok fields) → Document.ofFields fields = .ok doc →
    spec ∈ doc.bases.getD [] → findBase w spec (Path.parent path) = .ok (some target) →
      Extends w path target

theorem not_extends_of_readFile_eq_error {path target : String} {failure : ReadFailure}
    (h : readFile w path = .ok (.error failure)) : ¬Extends w path target := by
  rintro ⟨hread, -, -, -⟩
  cases h.symm.trans hread

/-! ### Ways that do not come back -/

/-- **A way to a file** that comes to no file of the chain, nor to one that it has come to. -/
inductive Way (w : World) : (chain : List String) → (path file : String) → Prop
  | here (chain : List String) (path : String) : Way w chain path path
  | step {chain : List String} {path target file : String} :
    Extends w path target → target ∉ chain → Way w (chain ++ [target]) target file →
      Way w chain path file

/-- A way goes on by one file, unless that is one of the chain. -/
theorem Way.mem_or_way {chain : List String} {path file target : String}
    (h : Way w chain path file) (htarget : Extends w file target) :
    target ∈ chain ∨ Way w chain path target := by
  induction h with
  | here chain path =>
    by_cases hchain : target ∈ chain
    · exact .inl hchain
    · exact .inr (.step htarget hchain (.here _ _))
  | @step chain path next file hnext hnew _ ih =>
    rcases ih htarget with hmem | hway
    · rcases List.mem_append.mp hmem with hmem | hmem
      · exact .inl hmem
      · -- the way has come to it before, and is cut short there
        obtain rfl := List.mem_singleton.mp hmem
        exact .inr (.step hnext hnew (.here _ _))
    · exact .inr (.step hnext hnew hway)

/-- **Every file that is reached** is reached without coming back. -/
theorem way_of_reached {path file : String} (h : ReflTransGen (Extends w) path file) :
    Way w [path] path file := by
  induction h with
  | refl => exact .here _ _
  | tail _ hstep ih =>
    rcases ih.mem_or_way hstep with hmem | hway
    · rw [List.mem_singleton.mp hmem]
      exact .here _ _
    · exact hway

/-! ### Files that amount to something -/

theorem exists_fields_of_inherits {path : String} {e : Inherited} (h : Inherits w path e) :
    ∃ fields, readFile w path = .ok (.ok fields) := by
  obtain ⟨_, hread, _⟩ := h
  exact ⟨_, hread⟩

/-- **What all files declare**: a property of the own values of every file that is reached, which
values on top of one another keep, is one of what the file amounts to. -/
theorem induction_of_inherits {path : String} {e : Inherited} {P : Inherited → Prop}
    (hempty : P {}) (hcombine : ∀ {lower upper}, P lower → P upper → P (lower.combine upper))
    (hown : ∀ {file fields doc}, ReflTransGen (Extends w) path file →
      readFile w file = .ok (.ok fields) → Document.ofFields fields = .ok doc →
        ∀ options, P (.own doc (Path.parent file) options))
    (h : Inherits w path e) : P e := by
  have hall : ∀ values : List Inherited, (∀ e ∈ values, P e) → P (.combineAll values) := by
    intro values hvalues
    induction values with
    | nil => exact hempty
    | cons e values ih =>
      rw [Inherited.combineAll_cons]
      exact hcombine (hvalues e (by simp)) (ih fun e he => hvalues e (by simp [he]))
  induction h with
  | @file path fields options doc bases hread hdoc _ hbases _ ih =>
    refine hall _ fun e he => ?_
    rcases List.mem_append.mp he with he | he
    · obtain ⟨base, hbase, rfl⟩ := List.mem_map.mp he
      obtain ⟨spec, hspec, hfound⟩ := List.mem_map.mp (hbases ▸ List.mem_map_of_mem hbase)
      -- a file that the base leads to is one that the file itself leads to
      refine ih base hbase fun hreach => hown (ReflTransGen.head ?_ hreach)
      exact .base hread hdoc hspec hfound
    · rw [List.mem_singleton.mp he]
      exact hown .refl hread hdoc options

/-- The file of a specification is that of one of the bases found. -/
theorem exists_mem_of_findBase {specs : List String} {baseDir spec : String}
    {bases : List (String × Inherited)} {found : Option String}
    (hbases : (specs.map fun spec => findBase w spec baseDir) =
      bases.map fun base => .ok (some base.1))
    (hspec : spec ∈ specs) (hfound : findBase w spec baseDir = .ok found) :
    ∃ base ∈ bases, found = some base.1 := by
  have hmem : Except.ok found ∈ specs.map fun spec => findBase w spec baseDir :=
    List.mem_map.mpr ⟨spec, hspec, hfound⟩
  rw [hbases] at hmem
  obtain ⟨base, hbase, heq⟩ := List.mem_map.mp hmem
  exact ⟨base, hbase, (Except.ok.inj heq).symm⟩

/-- **A file that amounts to something** does not lead back to itself. -/
theorem not_transGen_of_inherits {path : String} {e : Inherited} (h : Inherits w path e) :
    ¬TransGen (Extends w) path path := by
  induction h with
  | @file path fields options doc bases hread hdoc _ hbases _ ih =>
    intro hcycle
    obtain ⟨target, hextends, hback⟩ := TransGen.head'_iff.mp hcycle
    -- then so does the base that the way goes through
    have htarget : TransGen (Extends w) target target := TransGen.tail' hback hextends
    obtain ⟨hread', hdoc', hspec, hfound⟩ := hextends
    obtain rfl := Except.ok.inj (Except.ok.inj (hread.symm.trans hread'))
    obtain rfl := Except.ok.inj (hdoc.symm.trans hdoc')
    obtain ⟨base, hbase, heq⟩ := exists_mem_of_findBase hbases hspec hfound
    obtain rfl := Option.some.inj heq
    exact ih base hbase htarget

theorem problems_of_ownLayer {doc : Document} {path : String} {options : Fields}
    (h : CompilerOptions.check (doc.compilerOptions.getD []) = .ok options) :
    (ownLayer doc path).problems = [] := by
  rw [ownLayer, Layer.ofDocument, CompilerOptions.load, h]
  rfl

theorem problems_of_collectBases {collectOne : String → Except Fault Collected}
    {specs : List String} {collected : Collected}
    (hone : ∀ spec ∈ specs, ∀ collected, collectOne spec = .ok collected →
      collected.problems = [])
    (h : collectBases collectOne specs = .ok collected) : collected.problems = [] := by
  induction specs generalizing collected with
  | nil =>
    obtain rfl := Except.ok.inj h
    rfl
  | cons spec specs ih =>
    obtain ⟨first, hfirst, h⟩ := bind_ok_iff.mp h
    obtain ⟨others, hothers, h⟩ := bind_ok_iff.mp h
    obtain rfl := Except.ok.inj h
    exact append_problems_eq_nil_iff.mpr ⟨hone spec (by simp) first hfirst,
      ih (fun spec hspec => hone spec (by simp [hspec])) hothers⟩

/-- **A file that amounts to something** is collected without problems, below files that all
lead to it. -/
theorem problems_of_inherits {path : String} {e : Inherited} (h : Inherits w path e)
    {fuel : Nat} {fields : Fields} {chain : List String} {collected : Collected}
    (hread : readFile w path = .ok (.ok fields))
    (hchain : ∀ file ∈ chain, ReflTransGen (Extends w) file path)
    (hcollect : collectFrom w fuel path fields chain = .ok collected) :
    collected.problems = [] := by
  induction h generalizing fuel fields chain collected with
  | @file path fields' options doc bases hread' hdoc hcheck hbases hinherits ih =>
    obtain rfl := Except.ok.inj (Except.ok.inj (hread.symm.trans hread'))
    cases fuel with
    | zero =>
      obtain rfl := Except.ok.inj hcollect
      rfl
    | succ fuel =>
      rw [collectFrom, hdoc] at hcollect
      obtain ⟨below, hbelow, hcollect⟩ := bind_ok_iff.mp hcollect
      obtain rfl := Except.ok.inj hcollect
      refine append_problems_eq_nil_iff.mpr ⟨?_, problems_of_ownLayer hcheck⟩
      refine problems_of_collectBases (fun spec hspec collected hone => ?_) hbelow
      obtain ⟨found, hfound, hone⟩ := bind_ok_iff.mp hone
      obtain ⟨base, hbase, rfl⟩ := exists_mem_of_findBase hbases hspec hfound
      have hextends : Extends w path base.1 := .base hread hdoc hspec hfound
      have hnew : base.1 ∉ chain := fun hmem =>
        not_transGen_of_inherits (hinherits base hbase) (TransGen.tail' (hchain _ hmem) hextends)
      dsimp only at hone
      rw [if_neg (by simpa using hnew)] at hone
      obtain ⟨outcome, hreadBase, hone⟩ := bind_ok_iff.mp hone
      obtain ⟨baseFields, hbaseFields⟩ := exists_fields_of_inherits (hinherits base hbase)
      obtain rfl := Except.ok.inj (hreadBase.symm.trans hbaseFields)
      refine ih base hbase hbaseFields (fun file hmem => ?_) hone
      rcases List.mem_append.mp hmem with hmem | hmem
      · exact (hchain file hmem).tail hextends
      · rw [List.mem_singleton.mp hmem]

end TsProject.Config

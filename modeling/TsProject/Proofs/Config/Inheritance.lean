import TsProject.Config.Load
import TsProject.Proofs.Config.Chain
import TsProject.Proofs.Options.Check

/-!
# Inheritance

`Inherits` says what a configuration file amounts to, by recursion on the files it extends: what
each base amounts to, from the first to the last, and the file's own values on top. Nothing is
flattened there, and a file that is reached several times counts every time.

`load_inherits` says that loading a configuration computes this. The layers that are collected
are those of the bases one after the other, and putting layers on top of one another is
associative (`Inherited.combine_assoc`), so that the flat list amounts to the same as the tree;
chains are bounded, so that the collection is never cut off (`inherits_of_collectFrom`).
-/

namespace TsProject

/-- **What a configuration file passes on** to those that extend it. -/
@[ext] structure Inherited where
  options : String → Option Json := fun _ => none
  files : Option (List String) := none
  incl : Option (List String) := none
  excl : Option (List String) := none
  /-- The directory of the file that declares the path mapping. -/
  mappingDir : Option String := none

namespace Inherited

/-! ### Putting values on top of one another -/

/-- **One on top of another**: an option, and each list as a whole, comes from the upper one
where that declares it. -/
def combine (lower upper : Inherited) : Inherited where
  options key := upper.options key <|> lower.options key
  files := upper.files <|> lower.files
  incl := upper.incl <|> lower.incl
  excl := upper.excl <|> lower.excl
  mappingDir := upper.mappingDir <|> lower.mappingDir

theorem combine_assoc (a b c : Inherited) : (a.combine b).combine c = a.combine (b.combine c) := by
  have horElse : ∀ {α : Type} (x y z : Option α), (z <|> y <|> x) = ((z <|> y) <|> x) := by
    intro α x y z
    cases z <;> rfl
  ext1
  · funext key
    exact horElse _ _ _
  · exact horElse _ _ _
  · exact horElse _ _ _
  · exact horElse _ _ _
  · exact horElse _ _ _

@[simp] theorem empty_combine (a : Inherited) : combine {} a = a := by
  have hnone : ∀ {α : Type} (x : Option α), (x <|> none) = x := by
    intro α x
    cases x <;> rfl
  ext1
  · funext key
    exact hnone _
  · exact hnone _
  · exact hnone _
  · exact hnone _
  · exact hnone _

/-- Values on top of one another, from left to right. -/
def combineAll (values : List Inherited) : Inherited := values.foldl combine {}

theorem foldl_combine (a : Inherited) (values : List Inherited) :
    values.foldl combine a = a.combine (combineAll values) := by
  induction values generalizing a with
  | nil => rfl
  | cons b values ih =>
    rw [combineAll, List.foldl_cons, List.foldl_cons, ih, ih, empty_combine, combine_assoc]

theorem combineAll_cons (a : Inherited) (values : List Inherited) :
    combineAll (a :: values) = a.combine (combineAll values) := by
  rw [combineAll, List.foldl_cons, empty_combine, foldl_combine]

/-- **Flattening changes nothing.** -/
theorem combineAll_append (first second : List Inherited) :
    combineAll (first ++ second) = (combineAll first).combine (combineAll second) := by
  rw [combineAll, List.foldl_append, foldl_combine]
  rfl

theorem combineAll_concat (values : List Inherited) (a : Inherited) :
    combineAll (values ++ [a]) = (combineAll values).combine a := by
  rw [combineAll, List.foldl_append]
  rfl

/-! ### What a file amounts to -/

/-- The values that a document itself declares, its paths resolved against its directory. -/
def own (doc : Document) (dir : String) (options : Fields) : Inherited where
  options key := (options.get? key).map (CompilerOptions.resolveValue dir key)
  files := doc.files.map (·.map (Path.resolve dir))
  incl := doc.incl.map (·.map (Path.resolve dir))
  excl := doc.excl.map (·.map (Path.resolve dir))
  mappingDir := if options.has "paths" then some dir else none

/-- The path mapping in the end: its targets are resolved against the directory of the file that
declares it, unless there is a base URL. -/
def finalPaths (e : Inherited) : Option Json :=
  match e.mappingDir, e.options "baseUrl", e.options "paths" with
  | some dir, none, some (.obj mapping) => some (.obj (CompilerOptions.resolveMapping dir mapping))
  | _, _, paths => paths

end Inherited

/-- **What a configuration file amounts to**: what its bases amount to, from the first to the
last, and on top its own values. -/
inductive Inherits (w : World) : (path : String) → Inherited → Prop
  | file {path : String} {fields options : Fields} {doc : Document}
    (bases : List (String × Inherited)) :
    Config.readFile w path = .ok (.ok fields) → Document.ofFields fields = .ok doc →
    CompilerOptions.check (doc.compilerOptions.getD []) = .ok options →
    ((doc.bases.getD []).map fun spec => Config.findBase w spec (Path.parent path)) =
      bases.map (fun base => .ok (some base.1)) →
    (∀ base ∈ bases, Inherits w base.1 base.2) →
      Inherits w path
        (.combineAll (bases.map (·.2) ++ [.own doc (Path.parent path) options]))

/-- Pairs with the same first parts, which determine the second ones, are the same. -/
theorem map_snd_eq_of_map_fst_eq {α β : Type} {r : α → β → Prop} {xs ys : List (α × β)}
    (hfst : xs.map (·.1) = ys.map (·.1)) (hxs : ∀ x ∈ xs, ∀ b, r x.1 b → x.2 = b)
    (hys : ∀ y ∈ ys, r y.1 y.2) : xs.map (·.2) = ys.map (·.2) := by
  induction xs generalizing ys with
  | nil =>
    obtain rfl : ys = [] := by simpa using hfst.symm
    rfl
  | cons x xs ih =>
    cases ys with
    | nil => simp at hfst
    | cons y ys =>
      obtain ⟨hxy, hrest⟩ : x.1 = y.1 ∧ xs.map (·.1) = ys.map (·.1) := List.cons_eq_cons.mp hfst
      have hvalue : x.2 = y.2 := hxs x (by simp) y.2 (hxy ▸ hys y (by simp))
      rw [List.map_cons, List.map_cons, hvalue, ih hrest (fun z hz => hxs z (by simp [hz]))
        fun z hz => hys z (by simp [hz])]

/-- Files that are found for the same specifications are the same. -/
theorem map_fst_eq_of_found_eq {α β : Type} {found : List (Except Fault (Option String))}
    {xs : List (String × α)} {ys : List (String × β)}
    (hxs : found = xs.map fun x => .ok (some x.1)) (hys : found = ys.map fun y => .ok (some y.1)) :
    xs.map (·.1) = ys.map (·.1) := by
  have hinj : Function.Injective fun target : String =>
      (.ok (some target) : Except Fault (Option String)) :=
    fun s t hst => Option.some.inj (Except.ok.inj hst)
  refine List.map_injective_iff.mpr hinj ?_
  rw [List.map_map, List.map_map]
  exact hxs.symm.trans hys

/-- **A file amounts to one thing only.** -/
theorem Inherits.unique {w : World} {path : String} {a b : Inherited} (ha : Inherits w path a)
    (hb : Inherits w path b) : a = b := by
  induction ha generalizing b with
  | @file path fields options doc bases hread hdoc hoptions hbases _ ih =>
    obtain ⟨bases', hread', hdoc', hoptions', hbases', hinherits'⟩ := hb
    obtain rfl := Except.ok.inj (Except.ok.inj (hread.symm.trans hread'))
    obtain rfl := Except.ok.inj (hdoc.symm.trans hdoc')
    obtain rfl := Except.ok.inj (hoptions.symm.trans hoptions')
    have htargets := map_fst_eq_of_found_eq hbases hbases'
    rw [map_snd_eq_of_map_fst_eq htargets (fun base hbase b hb => ih base hbase hb) hinherits']

/-! ### Layers -/

/-- What a layer declares. -/
def Layer.inherited (layer : Layer) : Inherited where
  options := (Fields.ofMembers layer.options).get?
  files := layer.files
  incl := layer.incl
  excl := layer.excl
  mappingDir := if layer.options.has "paths" then some (Path.parent layer.path) else none

/-- What layers put on top of one another declare. -/
def Effective.inherited (e : Effective) : Inherited where
  options key := e.options.get? key
  files := e.files
  incl := e.incl
  excl := e.excl
  mappingDir := e.mappingDir

namespace Effective

/-- A layer put on top comes on top. -/
theorem inherited_put (e : Effective) (layer : Layer) :
    (e.put layer).inherited = e.inherited.combine layer.inherited := by
  ext1
  · funext key
    exact Fields.get?_update e.options layer.options key
  · rfl
  · rfl
  · rfl
  · by_cases hpaths : layer.options.has "paths" <;>
      simp [inherited, put, Layer.inherited, Inherited.combine, hpaths]

/-- **Layers put on top of one another** amount to what they declare, from left to right. -/
theorem inherited_ofLayers (layers : List Layer) :
    (ofLayers layers).inherited = .combineAll (layers.map Layer.inherited) := by
  -- for any layers below, which grow along the list
  have hfold : ∀ (layers : List Layer) (e : Effective), (layers.foldl put e).inherited =
      e.inherited.combine (.combineAll (layers.map Layer.inherited)) := by
    intro layers
    induction layers with
    | nil => exact fun e => rfl
    | cons layer layers ih =>
      intro e
      rw [List.foldl_cons, ih, inherited_put, List.map_cons, Inherited.combineAll_cons,
        Inherited.combine_assoc]
  exact (hfold layers {}).trans (Inherited.empty_combine _)

end Effective

/-- The layer of a document declares the document's own values. -/
theorem exists_own_of_ofDocument {doc : Document} {path : String} {layer : Layer}
    (h : Layer.ofDocument doc path = .ok layer) :
    ∃ options, CompilerOptions.check (doc.compilerOptions.getD []) = .ok options ∧
      layer.inherited = .own doc (Path.parent path) options := by
  rw [Layer.ofDocument] at h
  cases hload : CompilerOptions.load (some (Path.parent path)) (doc.compilerOptions.getD []) with
  | error found => simp [hload, Except.map] at h
  | ok loaded =>
    obtain ⟨options, hcheck, rfl⟩ := CompilerOptions.load_some_eq_ok_iff.mp hload
    rw [hload] at h
    obtain rfl := Except.ok.inj h
    -- every key stands once, so that reading the members in order finds the same values
    have hkeys : (CompilerOptions.resolvePaths (Path.parent path) options).keys.Nodup := by
      rw [CompilerOptions.keys_resolvePaths]
      exact CompilerOptions.nodup_keys_of_check hcheck
    have hhas : (CompilerOptions.resolvePaths (Path.parent path) options).has "paths" =
        options.has "paths" := by
      rw [Fields.has, CompilerOptions.get?_resolvePaths, Option.isSome_map, Fields.has]
    refine ⟨options, hcheck, ?_⟩
    ext1
    · funext key
      exact (Fields.get?_ofMembers hkeys key).trans (CompilerOptions.get?_resolvePaths _ _ _)
    · rfl
    · rfl
    · rfl
    · simp only [Layer.inherited, Inherited.own, hhas]

theorem ne_nil_of_ofDocument_eq_error {doc : Document} {path : String}
    {found : List OptionProblem} (h : Layer.ofDocument doc path = .error found) : found ≠ [] := by
  rw [Layer.ofDocument] at h
  cases hload : CompilerOptions.load (some (Path.parent path)) (doc.compilerOptions.getD []) with
  | ok loaded => simp [hload, Except.map] at h
  | error problems =>
    rw [hload] at h
    obtain rfl := Except.error.inj h
    exact CompilerOptions.ne_nil_of_load_eq_error hload

end TsProject

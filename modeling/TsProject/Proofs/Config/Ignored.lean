import TsProject.Proofs.Config.Anywhere
import TsProject.Proofs.Config.Shape
import TsProject.Proofs.World.Contents

/-!
# Entries that are ignored

Reading a document looks at the entries under its known keys and at no others
(`Document.ofFields_counted`), and a configuration is read as documents only. So what stands
under other keys, in the file that is loaded or in any file that it reaches, changes nothing about
how loading ends: `load_eq_of_varies`.

The compiler options have two spellings. The second one is a known key in a document without the
first one, and so it is not ignored there (`not_forall_load_eq_of_usual_varies`). Wherever the
first spelling stands, or the second one does not, what counts are the entries under the usual
keys (`counted_eq_usual`).
-/

namespace TsProject

namespace Document

/-- **The entries that count**: those under the known keys. -/
def counted (fields : Fields) : Fields := fields.filter fun kv => (knownKeys fields).contains kv.1

theorem get?_counted {fields : Fields} {key : String} (hkey : key ∈ knownKeys fields) :
    (counted fields).get? key = fields.get? key :=
  Fields.get?_filter_key (p := (knownKeys fields).contains) (List.contains_iff_mem.mpr hkey) fields

/-- What counts has the same spelling of the compiler options. -/
theorem optionsKey_counted (fields : Fields) : optionsKey (counted fields) = optionsKey fields := by
  have hhas : (counted fields).has "compilerOptions" = fields.has "compilerOptions" := by
    by_cases h : fields.has "compilerOptions"
    · -- the first spelling is the known one where it occurs
      have hkey : "compilerOptions" ∈ knownKeys fields := by simp [knownKeys, optionsKey, h]
      rw [Fields.has, Fields.has, get?_counted hkey]
    · have hnone : "compilerOptions" ∉ fields.keys := by
        simpa [Fields.mem_keys_iff, Fields.has] using h
      have hnot : "compilerOptions" ∉ (counted fields).keys := fun hmem =>
        hnone (List.filter_sublist.map _ |>.subset hmem)
      rw [Fields.has, Fields.has, Fields.get?_eq_none_iff.mpr hnone,
        Fields.get?_eq_none_iff.mpr hnot]
  rw [optionsKey, optionsKey, hhas]

theorem knownKeys_counted (fields : Fields) : knownKeys (counted fields) = knownKeys fields := by
  rw [knownKeys, knownKeys, optionsKey_counted]

/-- **A document is what its counted entries say.** -/
theorem ofFields_counted (fields : Fields) : ofFields (counted fields) = ofFields fields := by
  have hvalue : ∀ key ∈ knownKeys fields, valueOf (counted fields) key = valueOf fields key :=
    fun key hkey => by rw [valueOf, valueOf, get?_counted hkey]
  have hoptions : optionsKey fields ∈ knownKeys fields := List.mem_cons_self
  have hproblems : problems (counted fields) = problems fields := by
    rw [problems_eq_flatMap, problems_eq_flatMap, knownKeys_counted]
    exact List.flatMap_congr fun key hkey => by rw [hvalue key hkey]
  rw [ofFields, ofFields, hproblems, optionsKey_counted, hvalue _ hoptions,
    hvalue "files" (by simp [knownKeys]), hvalue "include" (by simp [knownKeys]),
    hvalue "exclude" (by simp [knownKeys]), hvalue "extends" (by simp [knownKeys])]

/-- The keys that a project file is documented to have. -/
def usualKeys : List String :=
  ["compilerOptions", "files", "include", "exclude", "extends", "references"]

/-- The entries under the usual keys. -/
def usual (fields : Fields) : Fields := fields.filter fun kv => usualKeys.contains kv.1

/-- The compiler options are not spelled in the second way only. -/
def IsUsual (fields : Fields) : Prop :=
  fields.has "compilerOptions" ∨ ¬fields.has "compiler_options"

/-- **The usual entries are those that count**, where the options are spelled as usual. -/
theorem counted_eq_usual {fields : Fields} (h : IsUsual fields) :
    counted fields = usual fields := by
  by_cases hfirst : fields.has "compilerOptions"
  · simp only [counted, usual, knownKeys, optionsKey, if_pos hfirst, usualKeys]
  · have hsecond : ¬fields.has "compiler_options" := h.resolve_left hfirst
    refine List.filter_congr fun kv hkv => ?_
    have hkey : ∀ key, ¬fields.has key → kv.1 ≠ key := by
      rintro key hhas rfl
      exact hhas (Fields.mem_keys_iff.mp (List.mem_map_of_mem hkv))
    have hne := hkey _ hfirst
    have hne' := hkey _ hsecond
    simp [knownKeys, optionsKey, hfirst, usualKeys, hne, hne']

/-- Documents with the same counted entries are read alike. -/
theorem ofFields_congr {fields other : Fields} (h : counted fields = counted other) :
    ofFields fields = ofFields other := by
  rw [← ofFields_counted fields, h, ofFields_counted]

end Document

namespace Config

/-- The entries of the object that the bytes of a file write, when they write one. -/
def entries? (bytes : List UInt8) : Option Fields :=
  match Utf8.decode bytes with
  | .error _ => none
  | .ok text =>
    match Json.readRelaxed (Text.unifyNewlines text) with
    | .ok (.obj fields) => some fields
    | _ => none

/-- **Contents that differ in some entries only**: they are the same, or write objects whose
entries are the same up to those that `part` leaves out. -/
def SameUpTo (part : Fields → Fields) (bytes other : List UInt8) : Prop :=
  bytes = other ∨ ∃ fields fields', entries? bytes = some fields ∧ entries? other = some fields' ∧
    part fields = part fields'

/-- **Worlds that differ in some entries only**: the second is the first with other contents in any
of its files, which are the same up to the entries that `part` leaves out. -/
def Varies (part : Fields → Fields) (w w' : World) : Prop :=
  ∃ f, w' = w.refill f ∧ ∀ loc bytes executable,
    w.nodeAt loc = some (.file bytes executable) → SameUpTo part bytes (f loc bytes)

variable {w w' : World} {f : Location → List UInt8 → List UInt8}

/-! ### Locating and finding -/

theorem cwdText_refill : (w.refill f).cwdText = w.cwdText := rfl

theorem homeOf_refill (component : String) :
    homeOf (w.refill f) component = homeOf w component := by
  have henv : (w.refill f).env = w.env := rfl
  have hhomes : (w.refill f).homes = w.homes := rfl
  rw [homeOf, homeOf, World.getEnv, World.getEnv, henv, hhomes]

theorem expandHome_refill (path : String) : expandHome (w.refill f) path = expandHome w path := by
  simp only [expandHome, homeOf_refill]

theorem locate_refill (path : String) : locate (w.refill f) path = locate w path := by
  simp only [locate, expandHome_refill, cwdText_refill, World.isDir_refill]

theorem firstFile?_refill (paths : List String) :
    firstFile? (w.refill f) paths = firstFile? w paths := by
  induction paths with
  | nil => rfl
  | cons path paths ih => rw [firstFile?, firstFile?, World.isFile_refill, ih]

theorem findBase_refill (spec baseDir : String) :
    findBase (w.refill f) spec baseDir = findBase w spec baseDir := by
  rw [findBase, findBase, firstFile?_refill, cwdText_refill]

theorem maxChain_refill : maxChain (w.refill f) = maxChain w := by
  have hlength : (w.refill f).nodes.length = w.nodes.length := List.length_map _
  rw [maxChain, maxChain, hlength, World.depth_refill]

/-! ### Selecting and finishing -/

theorem matchFiles_refill (incl exclude extensions : List String) :
    Selection.matchFiles (w.refill f) incl exclude extensions =
      Selection.matchFiles w incl exclude extensions := by
  have hcandidates : ∀ roots, Selection.candidates (w.refill f) roots exclude extensions =
      Selection.candidates w roots exclude extensions := by
    intro roots
    have hwalk : (w.refill f).walk = w.walk := funext World.walk_refill
    rw [Selection.candidates, Selection.candidates, hwalk]
  simp only [Selection.matchFiles, hcandidates]

theorem finish_refill (path : String) (requireInputs : Bool) (layerCount : Nat) (e : Effective) :
    finish (w.refill f) path requireInputs layerCount e =
      finish w path requireInputs layerCount e := by
  simp only [finish, Selection.select, matchFiles_refill]

/-! ### Reading and collecting -/

/-- A file that writes an object is read as that object. -/
theorem readFile_of_entries? {path : String} {bytes : List UInt8} {fields : Fields}
    (hbytes : w.readBytes path = .ok bytes) (h : entries? bytes = some fields) :
    readFile w path = .ok (.ok fields) := by
  rw [entries?] at h
  split at h
  · cases h
  · rename_i text hdecode
    split at h
    · rename_i members hread
      obtain rfl := Option.some.inj h
      have htext : w.readText path = .ok (Text.unifyNewlines text) := by
        rw [World.readText, hbytes]
        simp only [Except.mapError, hdecode, bind, Except.bind, pure, Except.pure]
      rw [readFile, htext]
      dsimp only
      rw [parseText, hread]
    · cases h

section Ignored

variable (h : ∀ loc bytes executable, w.nodeAt loc = some (.file bytes executable) →
  SameUpTo Document.counted bytes (f loc bytes))
include h

/-- **A file is read alike**: it is refused in the same way, or holds the same counted entries. -/
theorem readFile_refill (path : String) :
    readFile (w.refill f) path = readFile w path ∨
      ∃ fields fields', readFile w path = .ok (.ok fields) ∧
        readFile (w.refill f) path = .ok (.ok fields') ∧
          Document.counted fields = Document.counted fields' := by
  have hsame : (w.refill f).readBytes path = w.readBytes path →
      readFile (w.refill f) path = readFile w path := fun hbytes => by
    rw [readFile, readFile, World.readText, World.readText, hbytes]
  rcases w.readBytes_refill path with ⟨e, hold, hnew⟩ | ⟨loc, bytes, executable, hnode, hold, hnew⟩
  · exact .inl (hsame (hnew.trans hold.symm))
  · rcases h loc bytes executable hnode with heq | ⟨fields, fields', hfields, hfields', hcounted⟩
    · exact .inl (hsame (by rw [hnew, hold, ← heq]))
    · exact .inr ⟨fields, fields', readFile_of_entries? hold hfields,
        readFile_of_entries? hnew hfields', hcounted⟩

/-- **A base adds the same**, if what it says does. -/
theorem collectBase_refill
    {descend descend' : String → Fields → List String → Except Fault Collected}
    (hdescend : ∀ target fields fields' chain, Document.counted fields = Document.counted fields' →
      descend' target fields' chain = descend target fields chain)
    (baseDir : String) (chain : List String) (spec : String) :
    collectBase (w.refill f) descend' baseDir chain spec =
      collectBase w descend baseDir chain spec := by
  rw [collectBase, collectBase, findBase_refill]
  refine bind_congr_of_ok fun found _ => ?_
  cases found with
  | none => rfl
  | some target =>
    dsimp only
    split_ifs
    · rfl
    · rcases readFile_refill h target with hread | ⟨fields, fields', hold, hnew, hcounted⟩
      · rw [hread]
        refine bind_congr_of_ok fun outcome _ => ?_
        cases outcome with
        | error failure => rfl
        | ok fields => exact hdescend target fields fields _ rfl
      · rw [hold, hnew]
        exact hdescend target fields fields' _ hcounted

/-- **A collection is the same** for files that say the same. -/
theorem collectFrom_refill (fuel : Nat) (path : String) {fields fields' : Fields}
    (hcounted : Document.counted fields = Document.counted fields') (chain : List String) :
    collectFrom (w.refill f) fuel path fields' chain = collectFrom w fuel path fields chain := by
  induction fuel generalizing path fields fields' chain with
  | zero => rfl
  | succ fuel ih =>
    have hone : collectBase (w.refill f) (collectFrom (w.refill f) fuel) (Path.parent path) chain =
        collectBase w (collectFrom w fuel) (Path.parent path) chain :=
      funext fun spec => collectBase_refill h
        (fun target _ _ chain hcounted => ih target hcounted chain) (Path.parent path) chain spec
    rw [collectFrom, collectFrom, Document.ofFields_congr hcounted, hone]

/-! ### Loading -/

theorem loadLocated_refill (path : String) (requireInputs : Bool) :
    loadLocated (w.refill f) path requireInputs = loadLocated w path requireInputs := by
  have hcollect : ∀ fields fields', Document.counted fields = Document.counted fields' →
      collect (w.refill f) path fields' = collect w path fields := by
    intro fields fields' hcounted
    rw [collect, collect, maxChain_refill]
    exact collectFrom_refill h _ path hcounted [path]
  rw [loadLocated, loadLocated]
  rcases readFile_refill h path with hread | ⟨fields, fields', hold, hnew, hcounted⟩
  · rw [hread]
    refine bind_congr_of_ok fun outcome _ => ?_
    cases outcome with
    | error failure => rfl
    | ok fields => simp only [hcollect fields fields rfl, finish_refill]
  · simp only [hold, hnew, bind, Except.bind, hcollect fields fields' hcounted, finish_refill]

end Ignored

/-- **Other entries are inert.** In whatever files of a world entries are put or left out that do
not count, loading ends in the same way: with the same configuration, the same error or the same
fault. -/
theorem load_eq_of_varies (h : Varies Document.counted w w') (path : String)
    (requireInputs : Bool) : load w' path requireInputs = load w path requireInputs := by
  obtain ⟨f, rfl, hsame⟩ := h
  rw [load_eq, load_eq, locate_refill]
  exact bind_congr_of_ok fun located _ => loadLocated_refill hsame located requireInputs

/-- A configuration and a file for it to extend. -/
def filePair (base top : String) : World :=
  { nodes := [(["base.json"], plainFile base), (["tsconfig.json"], plainFile top)] }

/-- The bytes of letters of the basic alphabet. -/
def plainBytes (text : String) : List UInt8 := text.toList.map fun c => c.toNat.toUInt8

theorem varies_filePair {part : Fields → Fields} {base base' top top' : String}
    (hbase : SameUpTo part (plainBytes base) (plainBytes base'))
    (htop : SameUpTo part (plainBytes top) (plainBytes top')) :
    Varies part (filePair base top) (filePair base' top') := by
  refine ⟨fun loc _ => if loc = ["base.json"] then plainBytes base' else plainBytes top', rfl, ?_⟩
  intro loc bytes executable hnode
  have hmem : (loc, Node.file bytes executable) ∈ (filePair base top).nodes := by
    rw [World.nodeAt] at hnode
    split_ifs at hnode with hroot
    · cases hnode
    · obtain ⟨before, after, heq, -⟩ := List.lookup_eq_some_iff.mp hnode
      exact heq ▸ List.mem_append_right before List.mem_cons_self
  simp only [filePair, plainFile, List.mem_cons, Prod.mk.injEq, Node.file.injEq, List.not_mem_nil,
    or_false] at hmem
  rcases hmem with ⟨rfl, rfl, -⟩ | ⟨rfl, rfl, -⟩
  · exact hbase
  · exact htop

/-- The entries are no options and no files. -/
def isBare : Fields → Bool
  | [("compilerOptions", .obj []), ("files", .arr [])] => true
  | _ => false

theorem eq_of_isBare {fields : Fields} (h : isBare fields) :
    fields = [("compilerOptions", .obj []), ("files", .arr [])] := by
  unfold isBare at h
  split at h
  · rfl
  · cases h

/-- In a base with compiler options, two entries that do not count are put: one with a key of
nobody, and one with the second spelling. -/
theorem load_filePair :
    load (filePair
        ("\x7b\"$schema\": 1, \"compilerOptions\": \x7b\x7d, " ++
          "\"files\": [], \"compiler_options\": 2\x7d")
        "\x7b\"extends\": \"./base.json\"\x7d") "tsconfig.json" true =
      load (filePair "\x7b\"compilerOptions\": \x7b\x7d, \"files\": []\x7d"
        "\x7b\"extends\": \"./base.json\"\x7d") "tsconfig.json" true := by
  refine load_eq_of_varies (varies_filePair (.inr ?_) (.inl rfl)) "tsconfig.json" true
  have hold : (entries? (plainBytes
      "\x7b\"compilerOptions\": \x7b\x7d, \"files\": []\x7d")).any fun fields =>
        isBare (Document.counted fields) := by
    decide +kernel
  have hnew : (entries? (plainBytes
      ("\x7b\"$schema\": 1, \"compilerOptions\": \x7b\x7d, " ++
        "\"files\": [], \"compiler_options\": 2\x7d"))).any fun fields =>
        isBare (Document.counted fields) := by
    decide +kernel
  obtain ⟨fields, hfields, hbare⟩ := (Option.any_eq_true _ _).mp hold
  obtain ⟨fields', hfields', hbare'⟩ := (Option.any_eq_true _ _).mp hnew
  exact ⟨fields, fields', hfields, hfields', (eq_of_isBare hbare).trans (eq_of_isBare hbare').symm⟩

/-- **The second spelling is not ignored**: put into a file without the first one, it sets
options. -/
theorem not_forall_load_eq_of_usual_varies :
    ¬ ∀ (w w' : World) (path : String) (requireInputs : Bool), Varies Document.usual w w' →
      load w' path requireInputs = load w path requireInputs := by
  intro h
  have hvaries : Varies Document.usual (filePair "\x7b\x7d" "\x7b\x7d")
      (filePair "\x7b\x7d" "\x7b\"compiler_options\": \x7b\"strict\": true\x7d\x7d") := by
    have hold : (entries? (plainBytes "\x7b\x7d")).any fun fields =>
        (Document.usual fields).isEmpty := by
      decide +kernel
    have hnew : (entries? (plainBytes
        "\x7b\"compiler_options\": \x7b\"strict\": true\x7d\x7d")).any fun fields =>
          (Document.usual fields).isEmpty := by
      decide +kernel
    obtain ⟨fields, hfields, hnone⟩ := (Option.any_eq_true _ _).mp hold
    obtain ⟨fields', hfields', hnone'⟩ := (Option.any_eq_true _ _).mp hnew
    exact varies_filePair (.inl rfl) (.inr ⟨fields, fields', hfields, hfields',
      (List.isEmpty_iff.mp hnone).trans (List.isEmpty_iff.mp hnone').symm⟩)
  have hsame := h _ _ "tsconfig.json" false hvaries
  have hnone : (load (filePair "\x7b\x7d" "\x7b\x7d") "tsconfig.json" false).toOption.any
      fun answer => answer.toOption.any fun c => c.options.isEmpty := by
    decide +kernel
  have hsome : (load (filePair "\x7b\x7d" "\x7b\"compiler_options\": \x7b\"strict\": true\x7d\x7d")
      "tsconfig.json" false).toOption.any fun answer =>
        answer.toOption.any fun c => !c.options.isEmpty := by
    decide +kernel
  rw [hsame] at hsome
  obtain ⟨answer, hload, hanswer⟩ := exists_ok_of_any hnone
  obtain ⟨c, rfl, hempty⟩ := exists_ok_of_any hanswer
  simp only [hload, Except.toOption, Option.any_some, hempty, Bool.not_true] at hsome
  cases hsome

end Config

end TsProject

import Mathlib.Data.List.Chain
import TsProject.Proofs.Diagnostic.RoundTrip
import TsProject.Proofs.World.Lookup

/-!
# Every line counts once

The lines of an output that are not blank fall into **blocks** (`Block`): a line that names a
written file, a line that is not read, and the first line of a diagnostic together with the lines
that go on with it. `Accounts` says that blocks are those of some lines, and there is one way only
to divide lines into blocks (`Accounts.unique`). What has been read is at every moment what the
blocks of the lines before say (`Represents`), which one line preserves
(`Represents.exists_of_readLine`) and so a whole output. What is read of an output is what its
blocks say, and nothing else: `accounts_of_parse`.
-/

namespace TsProject

namespace Message

/-- The texts of a message, in reading order. -/
def texts (m : Message) : List String := m.root :: m.below.map (·.2)

theorem texts_chain (c : Chain) : (Message.chain c).texts = (c.preorder 0).map (·.2) := by
  obtain ⟨text, next⟩ := c
  rfl

/-- **The message of some lines** consists of their texts, in their order. -/
theorem texts_ofLines (head : String) (lines : List (Nat × String)) :
    texts (if lines.isEmpty then .plain head else .chain (Chain.ofLines head lines)) =
      head :: lines.map (·.2) := by
  cases lines with
  | nil => rfl
  | cons line lines =>
    rw [if_neg (by simp), texts_chain, Chain.preorder_ofLines, List.map_cons,
      Chain.map_snd_leveled]

end Message

namespace Output

/-- The line begins with two blanks. -/
def IsIndented (line : List Char) : Prop := [' ', ' '] <+: line

/-- The depth and the text of a line. -/
def piece (line : List Char) : Nat × String :=
  ((line.length - (line.dropWhile (· = ' ')).length) / 2, String.ofList (line.dropWhile (· = ' ')))

/-- **A block** of an output. -/
inductive Block where
  /-- A line that names a written file, with the path. -/
  | written (line path : List Char)
  /-- A line that is not read. -/
  | unread (line : List Char)
  /-- The first line of a diagnostic, its head, and the lines that go on with it. -/
  | told (first : List Char) (head : Head) (more : List (List Char))

namespace Block

/-- The first line. -/
def opening : Block → List Char
  | .written line _ => line
  | .unread line => line
  | .told first _ _ => first

/-- The lines behind the first one. -/
def more : Block → List (List Char)
  | .told _ _ more => more
  | _ => []

/-- The lines. -/
def lines (b : Block) : List (List Char) := b.opening :: b.more

/-- **The block is what its first line is read as**, and what goes on with a diagnostic is indented
by two blanks at least. -/
inductive Fits (cwd : String) : Block → Prop
  | written {line path : List Char} : emitted? line = some path → Fits cwd (.written line path)
  | unread {line : List Char} : emitted? line = none → Head.parse? cwd line = .ok none →
      Fits cwd (.unread line)
  | told {first : List Char} {head : Head} {more : List (List Char)} : emitted? first = none →
      Head.parse? cwd first = .ok (some head) → (∀ line ∈ more, IsIndented line) →
      Fits cwd (.told first head more)

/-- The path of the file that is written, resolved against `cwd`. -/
def path? (cwd : String) : Block → Option String
  | .written _ path => some (Head.resolve cwd path)
  | _ => none

/-- The line that is not read. -/
def unread? : Block → Option String
  | .unread line => some (String.ofList line)
  | _ => none

/-- The head of the diagnostic, with the lines that go on with it. -/
def told? : Block → Option (Head × List (List Char))
  | .told _ head more => some (head, more)
  | _ => none

/-- **A block ends** in front of another: an indented line behind a diagnostic goes on with it. -/
def EndsBefore (b next : Block) : Prop := b.told?.isSome → ¬IsIndented next.opening

end Block

/-- **Blocks account for lines**: they are what the lines, one after the other, are read as. -/
structure Accounts (cwd : String) (lines : List (List Char)) (blocks : List Block) : Prop where
  lines_eq : blocks.flatMap Block.lines = lines
  fits : ∀ b ∈ blocks, b.Fits cwd
  ends : blocks.IsChain Block.EndsBefore

/-- **A diagnostic tells** what a head and the lines that go on with it say: it has the head's
category, code and place, and its message consists of the head's text and, in their order, of the
lines without the blanks in front. -/
structure Tells (told : Head × List (List Char)) (d : Diagnostic) : Prop where
  category : d.category = told.1.category
  code : d.code = some (told.1.code : Int)
  file : d.file = told.1.file
  line : d.line = told.1.line.map Int.ofNat
  column : d.column = told.1.column.map Int.ofNat
  texts : d.message.texts =
    told.1.text :: told.2.map fun line => String.ofList (line.dropWhile (· = ' '))

variable {cwd : String} {line : List Char} {lines done : List (List Char)}
  {blocks : List Block} {r next : Reading}

/-! ### Indented lines -/

theorem indented?_of_isIndented (h : IsIndented line) : indented? line = some (piece line) := by
  obtain ⟨rest, rfl⟩ := h
  have hdrop : ([' ', ' '] ++ rest).dropWhile (· = ' ') = rest.dropWhile (· = ' ') := rfl
  have hshorter : (rest.dropWhile (· = ' ')).length ≤ rest.length :=
    (List.dropWhile_suffix (· = ' ')).length_le
  have hblanks : ¬([' ', ' '] ++ rest).length - (rest.dropWhile (· = ' ')).length < 2 := by
    rw [List.length_append]
    change ¬2 + rest.length - _ < 2
    omega
  simp only [indented?, piece, hdrop]
  rw [if_neg hblanks]

theorem indented?_of_not_isIndented (h : ¬IsIndented line) : indented? line = none := by
  have hfew : line.length - (line.dropWhile (· = ' ')).length < 2 := by
    match line with
    | [] => decide
    | [c] =>
      simp only [List.length_cons, List.length_nil]
      omega
    | c :: d :: rest =>
      by_cases hc : c = ' '
      · by_cases hd : d = ' '
        · exact absurd ⟨rest, by rw [hc, hd]; rfl⟩ h
        · simp [hc, hd]
      · simp [hc]
  simp only [indented?]
  rw [if_pos hfew]

/-! ### One way only -/

/-- Where a run of indented lines ends is settled by the line behind it. -/
theorem eq_of_append_eq {more more' rest rest' : List (List Char)}
    (hmore : ∀ line ∈ more, IsIndented line) (hmore' : ∀ line ∈ more', IsIndented line)
    (hrest : ∀ line ∈ rest.head?, ¬IsIndented line)
    (hrest' : ∀ line ∈ rest'.head?, ¬IsIndented line) (heq : more ++ rest = more' ++ rest') :
    more = more' ∧ rest = rest' := by
  rcases List.append_eq_append_iff.mp heq with ⟨between, rfl, rfl⟩ | ⟨between, rfl, rfl⟩
  · cases between with
    | nil => simp
    | cons line between => exact absurd (hmore' line (by simp)) (hrest line rfl)
  · cases between with
    | nil => simp
    | cons line between => exact absurd (hmore line (by simp)) (hrest' line rfl)

/-- **A block is settled** by its lines and the line behind them: what its first line is read as
says of which kind it is. -/
theorem Block.Fits.unique {b b' : Block} {rest rest' : List (List Char)} (h : b.Fits cwd)
    (h' : b'.Fits cwd) (hlines : b.lines ++ rest = b'.lines ++ rest')
    (hends : b.told?.isSome → ∀ line ∈ rest.head?, ¬IsIndented line)
    (hends' : b'.told?.isSome → ∀ line ∈ rest'.head?, ¬IsIndented line) :
    b = b' ∧ rest = rest' := by
  obtain ⟨hopening, hbehind⟩ := List.cons.inj hlines
  cases h with
  | @written line path hpath =>
    cases h' with
    | @written line' path' hpath' =>
      obtain rfl : line = line' := hopening
      obtain rfl : path = path' := Option.some.inj (hpath.symm.trans hpath')
      exact ⟨rfl, hbehind⟩
    | @unread line' hpath' _ =>
      obtain rfl : line = line' := hopening
      cases hpath.symm.trans hpath'
    | @told first' _ _ hpath' _ _ =>
      obtain rfl : line = first' := hopening
      cases hpath.symm.trans hpath'
  | @unread line hpath hread =>
    cases h' with
    | @written line' path' hpath' =>
      obtain rfl : line = line' := hopening
      cases hpath.symm.trans hpath'
    | @unread line' _ _ =>
      obtain rfl : line = line' := hopening
      exact ⟨rfl, hbehind⟩
    | @told first' _ _ _ hread' _ =>
      obtain rfl : line = first' := hopening
      cases hread.symm.trans hread'
  | @told first head more hpath hread hmore =>
    cases h' with
    | @written line' path' hpath' =>
      obtain rfl : first = line' := hopening
      cases hpath.symm.trans hpath'
    | @unread line' _ hread' =>
      obtain rfl : first = line' := hopening
      cases hread.symm.trans hread'
    | @told first' head' more' _ hread' hmore' =>
      obtain rfl : first = first' := hopening
      obtain rfl : head = head' := Option.some.inj (Except.ok.inj (hread.symm.trans hread'))
      obtain ⟨rfl, hrest⟩ := eq_of_append_eq hmore hmore' (hends rfl) (hends' rfl) hbehind
      exact ⟨rfl, hrest⟩

/-- **The line behind a diagnostic** is not indented. -/
theorem Accounts.not_isIndented {b : Block} (h : Accounts cwd lines (b :: blocks))
    (htold : b.told?.isSome) :
    ∀ line ∈ (blocks.flatMap Block.lines).head?, ¬IsIndented line := by
  intro line hline
  cases blocks with
  | nil => cases hline
  | cons next blocks =>
    obtain rfl : next.opening = line := Option.some.inj hline
    exact (List.isChain_cons_cons.mp h.ends).1 htold

theorem Accounts.tail {b : Block} (h : Accounts cwd lines (b :: blocks)) :
    Accounts cwd (blocks.flatMap Block.lines) blocks where
  lines_eq := rfl
  fits other hother := h.fits other (List.mem_cons_of_mem b hother)
  ends := h.ends.tail

/-- **Lines are divided into blocks in one way.** -/
theorem Accounts.unique {blocks' : List Block} (h : Accounts cwd lines blocks)
    (h' : Accounts cwd lines blocks') : blocks = blocks' := by
  induction blocks generalizing lines blocks' with
  | nil =>
    cases blocks' with
    | nil => rfl
    | cons b' blocks' => cases h.lines_eq.trans h'.lines_eq.symm
  | cons b blocks ih =>
    cases blocks' with
    | nil => cases h.lines_eq.trans h'.lines_eq.symm
    | cons b' blocks' =>
      have hlines : b.lines ++ blocks.flatMap Block.lines =
          b'.lines ++ blocks'.flatMap Block.lines := h.lines_eq.trans h'.lines_eq.symm
      obtain ⟨rfl, hrest⟩ := (h.fits b List.mem_cons_self).unique (h'.fits b' List.mem_cons_self)
        hlines h.not_isIndented h'.not_isIndented
      have htail' : Accounts cwd (blocks.flatMap Block.lines) blocks' := hrest ▸ h'.tail
      rw [ih h.tail htail']

/-! ### Reading -/

/-- The diagnostic of a head that may go on, and of the lines so far. -/
def pendingOf (told : Head × List (List Char)) : Pending := ⟨told.1, (told.2.map piece).reverse⟩

theorem tells_finish (told : Head × List (List Char)) : Tells told (pendingOf told).finish where
  category := rfl
  code := rfl
  file := rfl
  line := rfl
  column := rfl
  texts := by
    rw [Pending.finish, pendingOf]
    simp only [List.isEmpty_reverse, List.reverse_reverse]
    rw [Message.texts_ofLines, List.map_map]
    rfl

/-- **What has been read** of some lines is what their blocks say: the last of them may go on, all
others are complete. -/
structure Represents (cwd : String) (done : List (List Char)) (blocks : List Block)
    (r : Reading) : Prop where
  accounts : Accounts cwd done blocks
  emitted : r.emitted = (blocks.filterMap (Block.path? cwd)).reverse
  unparsed : r.unparsed = (blocks.filterMap Block.unread?).reverse
  diagnostics : (flush r).diagnostics =
    ((blocks.filterMap Block.told?).map fun told => (pendingOf told).finish).reverse
  pending : r.pending = (blocks.getLast?.bind Block.told?).map pendingOf

theorem represents_nil (cwd : String) : Represents cwd [] [] {} :=
  ⟨⟨rfl, by simp, List.isChain_nil⟩, rfl, rfl, rfl, rfl⟩

theorem emitted_flush (r : Reading) : (flush r).emitted = r.emitted := by
  rw [flush]
  split <;> rfl

theorem unparsed_flush (r : Reading) : (flush r).unparsed = r.unparsed := by
  rw [flush]
  split <;> rfl

theorem diagnostics_flush_of_none (h : r.pending = none) :
    (flush r).diagnostics = r.diagnostics := by
  rw [flush, h]

theorem diagnostics_flush {p : Pending} (h : r.pending = some p) :
    (flush r).diagnostics = p.finish :: r.diagnostics := by
  rw [flush, h]

/-! ### One more line -/

/-- A line that goes on with the last diagnostic is put to its block. -/
theorem Accounts.extend {before : List Block} {first : List Char} {head : Head}
    {more : List (List Char)} (h : Accounts cwd done (before ++ [.told first head more]))
    (hline : IsIndented line) :
    Accounts cwd (done ++ [line]) (before ++ [.told first head (more ++ [line])]) where
  lines_eq := by
    rw [← h.lines_eq]
    simp [Block.lines, Block.opening, Block.more]
  fits b hb := by
    rcases List.mem_append.mp hb with hb | hb
    · exact h.fits b (List.mem_append_left _ hb)
    · obtain rfl := List.mem_singleton.mp hb
      cases h.fits _ (List.mem_append_right before (List.mem_singleton_self _)) with
      | told hpath hread hmore =>
        refine .told hpath hread fun other hother => ?_
        rcases List.mem_append.mp hother with hother | hother
        · exact hmore other hother
        · obtain rfl := List.mem_singleton.mp hother
          exact hline
  ends := by
    obtain ⟨hbefore, -, hlast⟩ := List.isChain_append.mp h.ends
    refine List.isChain_append.mpr ⟨hbefore, List.isChain_singleton _, fun b hb next hnext => ?_⟩
    obtain rfl := Option.some.inj hnext
    exact hlast b hb (.told first head more) rfl

/-- A line that begins something new is a block behind the others. -/
theorem Accounts.concat {b : Block} (h : Accounts cwd done blocks) (hb : b.Fits cwd)
    (hlines : b.lines = [line]) (hends : ∀ last ∈ blocks.getLast?, last.EndsBefore b) :
    Accounts cwd (done ++ [line]) (blocks ++ [b]) where
  lines_eq := by rw [← h.lines_eq, List.flatMap_append, List.flatMap_singleton, hlines]
  fits := List.forall_mem_append.mpr ⟨h.fits, by simpa using hb⟩
  ends := by
    refine List.isChain_append.mpr
      ⟨h.ends, List.isChain_singleton _, fun last hlast next hnext => ?_⟩
    obtain rfl := Option.some.inj hnext
    exact hends last hlast

/-- **A line that goes on** with a diagnostic is one more of its block. -/
theorem Represents.extend (h : Represents cwd done blocks r) {p : Pending} (hp : r.pending = some p)
    (hline : IsIndented line) : ∃ blocks', Represents cwd (done ++ [line]) blocks'
      { r with pending := some { p with lines := piece line :: p.lines } } := by
  obtain ⟨told, htold, rfl⟩ := Option.map_eq_some_iff.mp (h.pending.symm.trans hp)
  obtain ⟨b, hlast, hb⟩ := Option.bind_eq_some_iff.mp htold
  obtain ⟨before, rfl⟩ := List.getLast?_eq_some_iff.mp hlast
  have hemitted := h.emitted
  have hunparsed := h.unparsed
  have hdiagnostics := h.diagnostics
  rw [diagnostics_flush hp] at hdiagnostics
  cases b with
  | written line path => cases hb
  | unread line => cases hb
  | told first head more =>
    obtain rfl : (head, more) = told := Option.some.inj hb
    -- the diagnostics that are complete are those of the blocks before
    have hcomplete : r.diagnostics =
        ((before.filterMap Block.told?).map fun told => (pendingOf told).finish).reverse := by
      simpa [Block.told?] using hdiagnostics
    refine ⟨before ++ [.told first head (more ++ [line])], h.accounts.extend hline, ?_, ?_, ?_, ?_⟩
    · simpa [List.filterMap_cons, Block.path?] using hemitted
    · simpa [List.filterMap_cons, Block.unread?] using hunparsed
    · rw [diagnostics_flush rfl, hcomplete]
      simp [pendingOf, Block.told?]
    · simp [pendingOf, Block.told?]

/-- A line that begins something new is a block behind the others, and adds what that block says
to what is complete. -/
theorem Represents.concat (h : Represents cwd done blocks r) {b : Block} (hfits : b.Fits cwd)
    (hlines : b.lines = [line]) (hends : r.pending.isSome → ¬IsIndented line)
    (hemitted : next.emitted = (b.path? cwd).toList ++ (flush r).emitted)
    (hunparsed : next.unparsed = b.unread?.toList ++ (flush r).unparsed)
    (hdiagnostics : (flush next).diagnostics =
      (b.told?.map fun told => (pendingOf told).finish).toList ++ (flush r).diagnostics)
    (hpending : next.pending = b.told?.map pendingOf) :
    Represents cwd (done ++ [line]) (blocks ++ [b]) next where
  accounts := by
    refine h.accounts.concat hfits hlines fun last hlast htold => ?_
    have hopening : b.opening = line := (List.cons.inj hlines).1
    rw [hopening]
    refine hends ?_
    rw [h.pending, Option.mem_def.mp hlast]
    simpa using htold
  emitted := by
    rw [hemitted, emitted_flush, h.emitted]
    cases hpath : b.path? cwd <;> simp [hpath]
  unparsed := by
    rw [hunparsed, unparsed_flush, h.unparsed]
    cases hunread : b.unread? <;> simp [hunread]
  diagnostics := by
    rw [hdiagnostics, h.diagnostics]
    cases htold : b.told? <;> simp [htold]
  pending := by
    rw [hpending]
    simp

/-- **A line that begins something new** is accounted for. -/
theorem Represents.readFresh (h : Represents cwd done blocks r)
    (hends : r.pending.isSome → ¬IsIndented line) (hread : readFresh cwd r line = .ok next) :
    ∃ blocks', Represents cwd (done ++ [line]) blocks' next := by
  have hnone := pending_flush r
  rw [Output.readFresh] at hread
  split at hread
  · rename_i path hpath
    obtain rfl := Except.ok.inj hread
    exact ⟨_, h.concat (.written hpath) rfl hends rfl rfl (diagnostics_flush_of_none hnone) hnone⟩
  · rename_i hpath
    obtain ⟨found, hparse, hread⟩ := bind_ok_iff.mp hread
    cases found with
    | none =>
      obtain rfl := Except.ok.inj hread
      exact ⟨_, h.concat (.unread hpath hparse) rfl hends rfl rfl
        (diagnostics_flush_of_none hnone) hnone⟩
    | some head =>
      obtain rfl := Except.ok.inj hread
      exact ⟨_, h.concat (.told hpath hparse (by simp)) rfl hends rfl rfl
        (diagnostics_flush rfl) rfl⟩

/-- **One line** is accounted for where those before are. -/
theorem Represents.readLine (h : Represents cwd done blocks r)
    (hread : readLine cwd r line = .ok next) :
    ∃ blocks', Represents cwd (done ++ [line].filter (!·.all Text.isBlank)) blocks' next := by
  rw [Output.readLine] at hread
  split_ifs at hread with hblank
  · obtain rfl := Except.ok.inj hread
    exact ⟨blocks, by simpa [hblank] using h⟩
  · have hkept : [line].filter (!·.all Text.isBlank) = [line] := by simp [hblank]
    rw [hkept]
    by_cases hline : IsIndented line
    · rw [indented?_of_isIndented hline] at hread
      cases hp : r.pending with
      | some p =>
        rw [hp] at hread
        obtain rfl := Except.ok.inj hread
        exact h.extend hp hline
      | none =>
        rw [hp] at hread
        exact h.readFresh (by simp [hp]) hread
    · rw [indented?_of_not_isIndented hline] at hread
      have hfresh : Output.readFresh cwd r line = .ok next := by
        cases hp : r.pending <;> rw [hp] at hread <;> exact hread
      exact h.readFresh (fun _ => hline) hfresh

/-- **A whole output** is accounted for. -/
theorem Represents.readLines (h : Represents cwd done blocks r)
    (hread : readLines cwd r lines = .ok next) :
    ∃ blocks', Represents cwd (done ++ lines.filter (!·.all Text.isBlank)) blocks' next := by
  induction lines generalizing done blocks r with
  | nil =>
    obtain rfl := Except.ok.inj hread
    exact ⟨blocks, by simpa using h⟩
  | cons line lines ih =>
    obtain ⟨between, hline, hrest⟩ := bind_ok_iff.mp hread
    obtain ⟨blocks', hblocks'⟩ := h.readLine hline
    obtain ⟨blocks'', hblocks''⟩ := ih hblocks' hrest
    refine ⟨blocks'', ?_⟩
    rw [← List.singleton_append, List.filter_append, ← List.append_assoc]
    exact hblocks''

/-! ### Whole outputs -/

theorem exists_readLines_of_parse {text : String} {out : Output} (h : parse text cwd = .ok out) :
    ∃ r, readLines cwd {} (Text.linesFrom [] text.toList) = .ok r := by
  rw [parse] at h
  obtain ⟨r, hr, -⟩ := bind_ok_iff.mp h
  exact ⟨r, hr⟩

/-- **No line is lost, counted twice or moved.** Where an output is read, its lines that are not
blank are those of blocks, in one way only. The files that are written are those of the blocks,
what is not read are the lines of the blocks, the diagnostics are those that the blocks tell, each
in the order of the lines, and the code of a diagnostic says to which phase it belongs. -/
theorem accounts_of_parse {text : String} {out : Output} (h : parse text cwd = .ok out) :
    ∃ blocks,
      (∀ blocks', Accounts cwd ((Text.linesFrom [] text.toList).filter (!·.all Text.isBlank))
        blocks' ↔ blocks' = blocks) ∧
      out.emitted = blocks.filterMap (Block.path? cwd) ∧
      out.unparsed = blocks.filterMap Block.unread? ∧
      ∃ diagnostics, List.Forall₂ Tells (blocks.filterMap Block.told?) diagnostics ∧
        out.pre = diagnostics.filter (fun d => ∀ code ∈ emitCodes, d.code ≠ some code) ∧
        out.emit = diagnostics.filter (fun d => ∃ code ∈ emitCodes, d.code = some code) := by
  obtain ⟨r, hr⟩ := exists_readLines_of_parse h
  obtain ⟨blocks, hblocks⟩ := (represents_nil cwd).readLines hr
  obtain rfl := Except.ok.inj (h.symm.trans (parse_of_readLines hr))
  rw [List.nil_append] at hblocks
  refine ⟨blocks, fun blocks' => ⟨fun h' => h'.unique hblocks.accounts, ?_⟩, ?_, ?_, ?_⟩
  · rintro rfl
    exact hblocks.accounts
  · rw [emitted_flush, hblocks.emitted, List.reverse_reverse]
  · rw [unparsed_flush, hblocks.unparsed, List.reverse_reverse]
  · refine ⟨(blocks.filterMap Block.told?).map fun told => (pendingOf told).finish, ?_, ?_, ?_⟩
    · exact List.forall₂_map_right_iff.mpr (List.forall₂_same.mpr fun told _ => tells_finish told)
    · rw [hblocks.diagnostics, List.reverse_reverse]
      refine List.filter_congr fun d _ => ?_
      rw [Bool.eq_iff_iff, Bool.not_eq_true', Bool.eq_false_iff, Ne, isEmission_iff]
      simp
    · rw [hblocks.diagnostics, List.reverse_reverse]
      refine List.filter_congr fun d _ => ?_
      rw [Bool.eq_iff_iff, isEmission_iff, decide_eq_true_iff]

/-- An output with a diagnostic that goes on after a blank line, an indented line behind a written
file, and a diagnostic of the second phase. -/
def mixedOutput : String :=
  "a.ts(1,2): error TS2322: x\n  y\n\n    z\nTSFILE: a.js\n  w\nerror TS5033: v\n"

theorem accounts_of_mixedOutput : ∃ out, parse mixedOutput "/p" = .ok out ∧
    out.emitted = ["/p/a.js"] ∧ out.unparsed = ["  w"] ∧ ∃ blocks,
      (∀ blocks', Accounts "/p" ((Text.linesFrom [] mixedOutput.toList).filter
        (!·.all Text.isBlank)) blocks' ↔ blocks' = blocks) ∧
      out.emitted = blocks.filterMap (Block.path? "/p") ∧
      out.unparsed = blocks.filterMap Block.unread? ∧
      ∃ diagnostics, List.Forall₂ Tells (blocks.filterMap Block.told?) diagnostics ∧
        out.pre = diagnostics.filter (fun d => ∀ code ∈ emitCodes, d.code ≠ some code) ∧
        out.emit = diagnostics.filter (fun d => ∃ code ∈ emitCodes, d.code = some code) := by
  have hread : (parse mixedOutput "/p").toOption.any fun out =>
      out.emitted == ["/p/a.js"] && out.unparsed == ["  w"] := by
    decide +kernel
  obtain ⟨out, hparse, hlists⟩ := exists_ok_of_any hread
  rw [Bool.and_eq_true, beq_iff_eq, beq_iff_eq] at hlists
  exact ⟨out, hparse, hlists.1, hlists.2, accounts_of_parse hparse⟩

end Output

end TsProject

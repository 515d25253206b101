import TsProject.Diagnostic.Entry
import TsProject.Proofs.Diagnostic.Chain
import TsProject.Proofs.Diagnostic.Head

/-!
# Printed diagnostics come back

A diagnostic is printed as a line that opens it (`Opens`) and the lines of its chain, and a blank
line stands between any two diagnostics. `IsPrintable` says which diagnostics can be told from
such lines. Reading the lines of one of them leaves it as the diagnostic that may go on
(`readLines_of_opens`), and the next one completes it, so that everything that is printed is read
back: `parse_aggregate`. A chain without children comes back as its text, because nothing of it
is printed but that.
-/

namespace TsProject

open Text (IsOneLine headed)

/-! ### What can be printed -/

namespace Message

/-- The text that stands on the first line. -/
def root : Message → String
  | .plain text => text
  | .chain c => c.text

/-- The texts on the lines below, with their depths. -/
def below : Message → List (Nat × String)
  | .plain _ => []
  | .chain c => Chain.preorderAll 1 c.next

/-- The message, with its text in place of a chain without children. -/
def settled : Message → Message
  | .chain (.node text []) => .plain text
  | m => m

end Message

/-- The diagnostic with its message settled. -/
def Diagnostic.settled (d : Diagnostic) : Diagnostic := { d with message := d.message.settled }

/-- A number that is not negative and has no more digits than are read. -/
structure IsPrintableNumber (n : Int) : Prop where
  nonneg : 0 ≤ n
  length_le : (toString n).length ≤ Json.maxDigits

/-- **A diagnostic without a place that can be printed**: its text is not taken for one. -/
structure Diagnostic.IsUnplaced (d : Diagnostic) : Prop where
  file : d.file = none
  line : d.line = none
  column : d.column = none
  noPlace : ¬HoldsPlace d.message.root.toList

/-- **A diagnostic at a line and a column of a file that can be printed.** -/
structure Diagnostic.IsPlaced (d : Diagnostic) : Prop where
  file : ∃ file, d.file = some file ∧ IsPrintableFile file
  line : ∃ line, d.line = some line ∧ IsPrintableNumber line
  column : ∃ column, d.column = some column ∧ 1 ≤ column ∧ IsPrintableNumber column

/-- **A diagnostic that can be printed**: it has a code, all of a place or none of it, and every
text of its message keeps to its line; those below the first are neither blank nor indented. -/
structure Diagnostic.IsPrintable (d : Diagnostic) : Prop where
  code : ∃ code, d.code = some code ∧ IsPrintableNumber code
  place : d.IsUnplaced ∨ d.IsPlaced
  root : IsOneLine d.message.root.toList
  below : ∀ line ∈ d.message.below, IsOneLine line.2.toList ∧ Text.isBlankText line.2 = false ∧
    line.2.toList.head? ≠ some ' '

/-! ### Lines of a chain -/

namespace Chain

mutual

theorem le_of_mem_preorder {depth : Nat} {line : Nat × String} (c : Chain)
    (h : line ∈ preorder depth c) : depth ≤ line.1 := by
  obtain ⟨text, next⟩ := c
  rcases List.mem_cons.mp h with rfl | h
  · exact Nat.le_refl depth
  · exact Nat.le_of_succ_le (le_of_mem_preorderAll next h)

theorem le_of_mem_preorderAll {depth : Nat} {line : Nat × String} (cs : List Chain)
    (h : line ∈ preorderAll depth cs) : depth ≤ line.1 := by
  cases cs with
  | nil => cases h
  | cons c cs =>
    rcases List.mem_append.mp h with h | h
    · exact le_of_mem_preorder c h
    · exact le_of_mem_preorderAll cs h

end

end Chain

theorem Message.pos_of_mem_below {m : Message} {line : Nat × String} (h : line ∈ m.below) :
    1 ≤ line.1 := by
  cases m with
  | plain text => cases h
  | chain c => exact Chain.le_of_mem_preorderAll c.next h

theorem Message.toList_flatten (m : Message) :
    (m.flatten "\n" 0).toList = m.root.toList ++ headed '\n' (m.below.map Chain.lineOf) := by
  cases m with
  | plain text => simp [flatten, root, below]
  | chain c => exact Chain.toList_flatten_zero c

/-- **A message is rebuilt** from its first text and the lines below. -/
theorem Message.settled_eq (m : Message) :
    m.settled =
      if m.below.isEmpty then .plain m.root else .chain (Chain.ofLines m.root m.below) := by
  cases m with
  | plain text => rfl
  | chain c =>
    have hrebuilt := Chain.ofLines_preorderAll c
    obtain ⟨text, next⟩ := c
    cases next with
    | nil => rfl
    | cons first next =>
      obtain ⟨head, more⟩ := first
      have hbelow : (Message.chain (.node text (.node head more :: next))).below.isEmpty = false :=
        rfl
      rw [hbelow, if_neg Bool.false_ne_true, below, root, hrebuilt, settled]
      rintro t ⟨⟩

/-! ### Reading the lines of a diagnostic -/

namespace Output

/-- **A line that opens a diagnostic**: it goes on with nothing, names no written file, and is
read as a head. -/
structure Opens (cwd : String) (first : List Char) (head : Head) : Prop where
  oneLine : IsOneLine first
  notBlank : first.all Text.isBlank = false
  notIndented : indented? first = none
  notEmitted : emitted? first = none
  parse : Head.parse? cwd first = .ok (some head)

theorem opens_of_cons {cwd : String} {c : Char} {rest : List Char} {head : Head}
    (hline : IsOneLine (c :: rest)) (hblank : Text.isBlank c = false) (hc : c ≠ 'T')
    (h : Head.parse? cwd (c :: rest) = .ok (some head)) : Opens cwd (c :: rest) head where
  oneLine := hline
  notBlank := by simp [hblank]
  notIndented := by
    have hspace : c ≠ ' ' := by
      rintro rfl
      cases hblank
    simp [indented?, hspace]
  notEmitted := by
    have hnone : Text.dropStart? "TSFILE: ".toList (c :: rest) = none := by
      simp [Text.dropStart?, Ne.symm hc]
    rw [emitted?, hnone]
  parse := h

/-- **A line of a chain** is read as its depth and its text. -/
theorem indented?_lineOf {line : Nat × String} (hdepth : 1 ≤ line.1)
    (htext : line.2.toList.head? ≠ some ' ') : indented? (Chain.lineOf line) = some line := by
  obtain ⟨depth, text⟩ := line
  have hdrop : (Chain.lineOf (depth, text)).dropWhile (· = ' ') = text.toList := by
    rw [Chain.lineOf, List.dropWhile_append_of_pos (by simp)]
    cases hcs : text.toList with
    | nil => rfl
    | cons c cs =>
      rw [List.dropWhile_cons_of_neg]
      simpa [hcs] using htext
  have hlength : (Chain.lineOf (depth, text)).length - text.toList.length = 2 * depth := by
    simp [Chain.lineOf]
  simp only [indented?, hdrop, hlength]
  rw [if_neg (by omega), String.ofList_toList, Nat.mul_div_cancel_left _ (by decide)]

theorem parse_of_readLines {text cwd : String} {r : Reading}
    (h : readLines cwd {} (Text.linesFrom [] text.toList) = .ok r) :
    parse text cwd = .ok {
      pre := (flush r).diagnostics.reverse.filter (!isEmission ·)
      emit := (flush r).diagnostics.reverse.filter isEmission
      emitted := (flush r).emitted.reverse
      unparsed := (flush r).unparsed.reverse } := by
  rw [parse, h]
  rfl

/-- An empty line is passed over. -/
theorem readLines_nil_cons (cwd : String) (r : Reading) (lines : List (List Char)) :
    readLines cwd r ([] :: lines) = readLines cwd r lines := rfl

theorem readLine_of_opens {cwd : String} {first : List Char} {head : Head}
    (h : Opens cwd first head) (r : Reading) :
    readLine cwd r first = .ok { flush r with pending := some { head } } := by
  have hfresh : readFresh cwd r first = .ok { flush r with pending := some { head } } := by
    simp only [readFresh, h.notEmitted, h.parse]
    rfl
  rw [readLine, h.notBlank, if_neg Bool.false_ne_true, h.notIndented]
  cases r.pending <;> exact hfresh

theorem readLine_lineOf {line : Nat × String} (hdepth : 1 ≤ line.1)
    (hblank : Text.isBlankText line.2 = false) (htext : line.2.toList.head? ≠ some ' ')
    (cwd : String) (r : Reading) (head : Head) (lines : List (Nat × String)) :
    readLine cwd { r with pending := some ⟨head, lines⟩ } (Chain.lineOf line) =
      .ok { r with pending := some ⟨head, line :: lines⟩ } := by
  have hall : (Chain.lineOf line).all Text.isBlank = false := by
    rw [Chain.lineOf, List.all_append]
    exact Bool.and_eq_false_imp.mpr fun _ => hblank
  rw [readLine, hall, if_neg Bool.false_ne_true, indented?_lineOf hdepth htext]

theorem readLines_append (cwd : String) (r : Reading) (first second : List (List Char)) :
    readLines cwd r (first ++ second) =
      (readLines cwd r first).bind fun r => readLines cwd r second := by
  induction first generalizing r with
  | nil => rfl
  | cons line first ih =>
    rw [List.cons_append, readLines, readLines]
    cases readLine cwd r line with
    | error e => rfl
    | ok next => exact ih next

/-- Lines of a chain go on with the diagnostic. -/
theorem readLines_lineOf {more : List (Nat × String)}
    (h : ∀ line ∈ more, 1 ≤ line.1 ∧ Text.isBlankText line.2 = false ∧
      line.2.toList.head? ≠ some ' ')
    (cwd : String) (r : Reading) (head : Head) (lines : List (Nat × String)) :
    readLines cwd { r with pending := some ⟨head, lines⟩ } (more.map Chain.lineOf) =
      .ok { r with pending := some ⟨head, more.reverse ++ lines⟩ } := by
  induction more generalizing lines with
  | nil => rfl
  | cons line more ih =>
    obtain ⟨hdepth, hblank, htext⟩ := h line (by simp)
    rw [List.map_cons, readLines, readLine_lineOf hdepth hblank htext, List.reverse_cons,
      List.append_assoc]
    exact ih (fun other hother => h other (by simp [hother])) (line :: lines)

/-- **The lines of a diagnostic** complete the one before and leave a new one that may go on. -/
theorem readLines_of_opens {cwd : String} {first : List Char} {head : Head}
    (hfirst : Opens cwd first head) {more : List (Nat × String)}
    (h : ∀ line ∈ more, 1 ≤ line.1 ∧ Text.isBlankText line.2 = false ∧
      line.2.toList.head? ≠ some ' ') (r : Reading) :
    readLines cwd r (first :: more.map Chain.lineOf) =
      .ok { flush r with pending := some ⟨head, more.reverse⟩ } := by
  rw [readLines, readLine_of_opens hfirst]
  exact (readLines_lineOf h cwd (flush r) head []).trans (by rw [List.append_nil])

theorem pending_flush (r : Reading) : (flush r).pending = none := by
  rw [flush]
  split
  · assumption
  · rfl

theorem flush_pending (r : Reading) (p : Pending) :
    flush { flush r with pending := some p } =
      { flush r with diagnostics := p.finish :: (flush r).diagnostics } := by
  have hnone := pending_flush r
  generalize flush r = s at hnone ⊢
  obtain ⟨diagnostics, emitted, unparsed, pending⟩ := s
  subst hnone
  rfl

end Output

/-! ### Printed diagnostics -/

/-- The message is what the line of an entry ends with. -/
theorem Entry.toList_format_eq (e : Entry) :
    e.format.toList = { e with message := "" }.format.toList ++ e.message.toList := by
  obtain ⟨message, phase, category, code, file, line, column⟩ := e
  cases file <;> cases line <;> simp [format, head, writtenColumn]

namespace Diagnostic

/-- The line that opens a printed diagnostic. -/
def openingLine (d : Diagnostic) : List Char :=
  (Entry.ofDiagnostic .preEmit { d with message := .plain d.message.root }).format.toList

/-- The lines of a printed diagnostic. -/
def printed (d : Diagnostic) : List (List Char) :=
  d.openingLine :: d.message.below.map Chain.lineOf

/-- **A diagnostic is printed** as its lines, in either phase. -/
theorem toList_format (d : Diagnostic) (phase : Phase) :
    (Entry.ofDiagnostic phase d).format.toList = Text.joinWith '\n' d.printed := by
  rw [printed, Text.joinWith_cons, openingLine, Entry.toList_format_eq,
    Entry.toList_format_eq (.ofDiagnostic .preEmit _), List.append_assoc]
  exact congrArg _ d.message.toList_flatten

/-- The text of a number that is not negative. -/
theorem toString_natCast {n : Int} (h : 0 ≤ n) : toString n = toString n.toNat := by
  obtain ⟨k, rfl⟩ := Int.eq_ofNat_of_zero_le h
  rfl

variable {d : Diagnostic}

/-- A code that can be printed, as the digits it is printed with. -/
theorem IsPrintable.exists_code (h : d.IsPrintable) : ∃ code : Nat, d.code = some (code : Int) ∧
    (toString code).length ≤ Json.maxDigits := by
  obtain ⟨code, hcode, hnumber⟩ := h.code
  refine ⟨code.toNat, ?_, toString_natCast hnumber.nonneg ▸ hnumber.length_le⟩
  rw [hcode, Int.toNat_of_nonneg hnumber.nonneg]

theorem exists_opens_of_isUnplaced (h : d.IsPrintable) (hplace : d.IsUnplaced) (cwd : String) :
    ∃ head, Output.Opens cwd d.openingLine head ∧
      (⟨head, d.message.below.reverse⟩ : Pending).finish = d.settled := by
  obtain ⟨code, hcode, hlength⟩ := h.exists_code
  have hline : d.openingLine =
      kindText d.category (toString code).toList ++ d.message.root.toList := by
    simp only [openingLine, Entry.format, Entry.ofDiagnostic, Entry.head, hplace.file, hcode,
      Message.flatten, kindText, String.toList_append, List.append_assoc]
    rfl
  refine ⟨{ category := d.category, code, text := d.message.root }, ?_, ?_⟩
  · have hparse := Head.parse?_kindText cwd d.category hlength hplace.noPlace
    have honeLine : IsOneLine d.openingLine := hline ▸ Text.isOneLine_append_iff.mpr
      ⟨isOneLine_kindText (Text.isNumeral_toString code), h.root⟩
    obtain ⟨c, rest, hcons, hblank, hc⟩ : ∃ c rest, d.openingLine = c :: rest ∧
        Text.isBlank c = false ∧ c ≠ 'T' := by
      rw [hline, kindText]
      cases d.category <;> exact ⟨_, _, rfl, by decide, by decide⟩
    rw [← hline] at hparse
    rw [hcons] at honeLine hparse ⊢
    exact Output.opens_of_cons honeLine hblank hc hparse
  · have hfile := hplace.file
    have hnoLine := hplace.line
    have hnoColumn := hplace.column
    obtain ⟨category, _, message, _, _, _⟩ := d
    subst hcode hfile hnoLine hnoColumn
    simp only [Pending.finish, settled, Message.settled_eq, List.isEmpty_reverse,
      List.reverse_reverse, Option.map_none]

theorem exists_opens_of_isPlaced (h : d.IsPrintable) (hplace : d.IsPlaced) (cwd : String) :
    ∃ head, Output.Opens cwd d.openingLine head ∧
      (⟨head, d.message.below.reverse⟩ : Pending).finish = d.settled := by
  obtain ⟨code, hcode, hlength⟩ := h.exists_code
  obtain ⟨file, hfile, hprintable⟩ := hplace.file
  obtain ⟨line, hline, hlineNumber⟩ := hplace.line
  obtain ⟨column, hcolumn, hpos, hcolumnNumber⟩ := hplace.column
  obtain ⟨line, rfl⟩ := Int.eq_ofNat_of_zero_le hlineNumber.nonneg
  obtain ⟨column, rfl⟩ := Int.eq_ofNat_of_zero_le hcolumnNumber.nonneg
  have hwritten : (column : Int) ≠ 0 := by omega
  have hopening : d.openingLine = file.toList ++ (placeText (toString line).toList
      (toString column).toList d.category (toString code).toList ++ d.message.root.toList) := by
    simp only [openingLine, Entry.format, Entry.ofDiagnostic, Entry.head, Entry.writtenColumn,
      hfile, hline, hcolumn, hcode, if_neg hwritten, Message.flatten, placeText, kindText,
      String.toList_append, List.append_assoc, List.cons_append]
    rfl
  refine ⟨{ category := d.category, code, text := d.message.root, file := some file
            line := some line, column := some column }, ?_, ?_⟩
  · have hparse := Head.parse?_placeText cwd d.category d.message.root hprintable
      hlineNumber.length_le hcolumnNumber.length_le hlength
    have hisPlace : IsPlace (placeText (toString line).toList (toString column).toList d.category
        (toString code).toList) :=
      .mk d.category (Text.isNumeral_toString line) (Text.isNumeral_toString column)
        (Text.isNumeral_toString code)
    have honeLine : IsOneLine d.openingLine := hopening ▸ Text.isOneLine_append_iff.mpr
      ⟨hprintable.oneLine, Text.isOneLine_append_iff.mpr ⟨hisPlace.isOneLine, h.root⟩⟩
    obtain ⟨rest, hrest⟩ := Path.isAbsolute_iff.mp hprintable.isNormal.isAbsolute
    rw [← hopening] at hparse
    rw [hrest, List.cons_append] at hopening
    rw [hopening] at honeLine hparse ⊢
    exact Output.opens_of_cons honeLine (by decide) (by decide) hparse
  · obtain ⟨category, _, message, _, _, _⟩ := d
    subst hcode hfile hline hcolumn
    simp only [Pending.finish, settled, Message.settled_eq, List.isEmpty_reverse,
      List.reverse_reverse, Option.map_some]
    rfl

/-- **A printed diagnostic opens itself**: its first line is read as its head, and head and lines
make up the diagnostic. -/
theorem IsPrintable.exists_opens (h : d.IsPrintable) (cwd : String) :
    ∃ head, Output.Opens cwd d.openingLine head ∧
      (⟨head, d.message.below.reverse⟩ : Pending).finish = d.settled := by
  rcases h.place with hplace | hplace
  · exact exists_opens_of_isUnplaced h hplace cwd
  · exact exists_opens_of_isPlaced h hplace cwd

/-- **Reading a printed diagnostic** completes the one before and adds it. -/
theorem IsPrintable.exists_readLines (h : d.IsPrintable) (cwd : String) (r : Reading) :
    ∃ next, Output.readLines cwd r d.printed = .ok next ∧ Output.flush next =
      { Output.flush r with diagnostics := d.settled :: (Output.flush r).diagnostics } := by
  obtain ⟨head, hopens, hfinish⟩ := h.exists_opens cwd
  refine ⟨_, Output.readLines_of_opens hopens (fun line hline => ?_) r, ?_⟩
  · exact ⟨Message.pos_of_mem_below hline, (h.below line hline).2⟩
  · rw [Output.flush_pending, hfinish]

/-- Printed diagnostics with an empty line in front of each are read one after the other. -/
theorem exists_readLines_flatMap {ds : List Diagnostic} (h : ∀ d ∈ ds, d.IsPrintable)
    (cwd : String) (r : Reading) :
    ∃ last, Output.readLines cwd r (ds.flatMap ([] :: ·.printed)) = .ok last ∧
      Output.flush last = { Output.flush r with
        diagnostics := (ds.map settled).reverse ++ (Output.flush r).diagnostics } := by
  induction ds generalizing r with
  | nil => exact ⟨r, rfl, rfl⟩
  | cons d ds ih =>
    obtain ⟨next, hnext, hflush⟩ := (h d (by simp)).exists_readLines cwd r
    obtain ⟨last, hlast, hrest⟩ := ih (fun e he => h e (by simp [he])) next
    refine ⟨last, ?_, ?_⟩
    · rw [List.flatMap_cons, Output.readLines_append, Output.readLines_nil_cons, hnext]
      exact hlast
    · rw [hrest, hflush]
      simp

theorem printed_ne_nil (d : Diagnostic) : d.printed ≠ [] := List.cons_ne_nil _ _

/-- Every line of a printed diagnostic is one line, and the last one is not empty. -/
theorem IsPrintable.isOneLine_printed (h : d.IsPrintable) :
    (∀ line ∈ d.printed, IsOneLine line) ∧ ∀ line ∈ d.printed.getLast?, line ≠ [] := by
  obtain ⟨head, hopens, -⟩ := h.exists_opens ""
  have hne : ∀ line ∈ d.printed, line.all Text.isBlank = false := by
    intro line hline
    rcases List.mem_cons.mp hline with rfl | hline
    · exact hopens.notBlank
    · obtain ⟨text, htext, rfl⟩ := List.mem_map.mp hline
      rw [Chain.lineOf, List.all_append]
      exact Bool.and_eq_false_imp.mpr fun _ => (h.below text htext).2.1
  refine ⟨fun line hline => ?_, fun line hline hnil => ?_⟩
  · rcases List.mem_cons.mp hline with rfl | hline
    · exact hopens.oneLine
    · obtain ⟨text, htext, rfl⟩ := List.mem_map.mp hline
      refine Text.isOneLine_append_iff.mpr ⟨fun c hc => ?_, (h.below text htext).1⟩
      rw [List.eq_of_mem_replicate hc]
      decide
  · have hblank := hne line (List.mem_of_mem_getLast? hline)
    rw [hnil] at hblank
    cases hblank

theorem flatten_settled (m : Message) : m.settled.flatten "\n" 0 = m.flatten "\n" 0 := by
  cases m with
  | plain text => rfl
  | chain c =>
    obtain ⟨text, next⟩ := c
    cases next with
    | nil => simp [Message.settled, Message.flatten, Chain.flatten, Chain.flattenAll]
    | cons first next => rfl

theorem ofDiagnostic_settled (phase : Phase) (d : Diagnostic) :
    Entry.ofDiagnostic phase d.settled = Entry.ofDiagnostic phase d := by
  rw [Entry.ofDiagnostic, Entry.ofDiagnostic, settled, flatten_settled]

end Diagnostic

/-- **The lines of printed diagnostics** are those of each, an empty one between any two. -/
theorem linesFrom_aggregate {entries : List Entry} {d : Diagnostic} {ds : List Diagnostic}
    (hentries : entries.map (·.format.toList) =
      (d :: ds).map fun d => Text.joinWith '\n' d.printed)
    (h : ∀ e ∈ d :: ds, e.IsPrintable) :
    Text.linesFrom [] (aggregate entries).toList =
      d.printed ++ ds.flatMap ([] :: ·.printed) := by
  have hblocks : ∀ b ∈ d.printed :: ds.map Diagnostic.printed, b ≠ [] := by
    intro b hb
    obtain ⟨e, -, rfl⟩ := List.mem_map.mp (show b ∈ (d :: ds).map Diagnostic.printed from hb)
    exact e.printed_ne_nil
  have htext : (aggregate entries).toList =
      Text.joinWith '\n' (d.printed ++ ds.flatMap ([] :: ·.printed)) := by
    have hjoin := Text.intercalate_map_joinWith hblocks
    rw [List.flatMap_map] at hjoin
    rw [← hjoin, aggregate, String.toList_intercalate, List.map_map]
    refine congrArg _ (hentries.trans ?_)
    rw [← List.map_cons, List.map_map]
    rfl
  rw [htext]
  refine Text.linesFrom_joinWith (fun line hline => ?_) ?_
  · rcases List.mem_append.mp hline with hline | hline
    · exact (h d (by simp)).isOneLine_printed.1 line hline
    · obtain ⟨e, he, hline⟩ := List.mem_flatMap.mp hline
      rcases List.mem_cons.mp hline with rfl | hline
      · exact Text.isOneLine_nil
      · exact (h e (by simp [he])).isOneLine_printed.1 line hline
  · -- the last line is that of the last diagnostic
    rcases List.eq_nil_or_concat ds with rfl | ⟨before, last, rfl⟩
    · simpa using (h d (by simp)).isOneLine_printed.2
    · have hlast : (d.printed ++ (before.concat last).flatMap ([] :: ·.printed)).getLast? =
          last.printed.getLast? := by
        rw [List.concat_eq_append, List.flatMap_append, List.flatMap_singleton,
          ← List.append_assoc, List.getLast?_append_of_ne_nil _ (List.cons_ne_nil _ _),
          ← List.singleton_append, List.getLast?_append_of_ne_nil _ last.printed_ne_nil]
      rw [hlast]
      exact (h last (by simp)).isOneLine_printed.2

/-- **The phase of a diagnostic** is told by its code. -/
theorem isEmission_iff {d : Diagnostic} :
    Output.isEmission d ↔ ∃ code ∈ emitCodes, d.code = some code := by
  cases hcode : d.code <;> simp [Output.isEmission, hcode]

/-- The phases are told apart by their codes. -/
theorem filter_isEmission {pre emit : List Diagnostic}
    (hpre : ∀ d ∈ pre, ∀ code ∈ emitCodes, d.code ≠ some code)
    (hemit : ∀ d ∈ emit, ∃ code ∈ emitCodes, d.code = some code) :
    (pre ++ emit).filter (!Output.isEmission ·) = pre ∧
      (pre ++ emit).filter Output.isEmission = emit := by
  have hpreFalse : ∀ d ∈ pre, Output.isEmission d = false := by
    intro d hd
    rw [Bool.eq_false_iff, Ne, isEmission_iff]
    rintro ⟨code, hmem, hcode⟩
    exact hpre d hd code hmem hcode
  have hemitTrue : ∀ d ∈ emit, Output.isEmission d = true := fun d hd =>
    isEmission_iff.mpr (hemit d hd)
  rw [List.filter_append, List.filter_append,
    List.filter_eq_self.mpr fun d hd => by simp [hpreFalse d hd],
    List.filter_eq_nil_iff.mpr fun d hd => by simp [hemitTrue d hd],
    List.filter_eq_nil_iff.mpr fun d hd => by simp [hpreFalse d hd],
    List.filter_eq_self.mpr hemitTrue]
  exact ⟨List.append_nil pre, rfl⟩

/-- **Printed diagnostics come back.** What is printed of a failure is read as the diagnostics
it is made of, those of each phase in their order, and collecting them gives the same failure. -/
theorem parse_aggregate {pre emit : List Diagnostic} (hpre : ∀ d ∈ pre, d.IsPrintable)
    (hemit : ∀ d ∈ emit, d.IsPrintable)
    (hpreCode : ∀ d ∈ pre, ∀ code ∈ emitCodes, d.code ≠ some code)
    (hemitCode : ∀ d ∈ emit, ∃ code ∈ emitCodes, d.code = some code)
    (hne : pre ≠ [] ∨ emit ≠ []) (cwd : String) :
    ∃ entries, Outcome.collect pre emit = .failure entries ∧
      Output.parse (aggregate entries) cwd =
        .ok { pre := pre.map Diagnostic.settled, emit := emit.map Diagnostic.settled
              emitted := [], unparsed := [] } ∧
      Outcome.collect (pre.map Diagnostic.settled) (emit.map Diagnostic.settled) =
        .failure entries := by
  obtain ⟨d, ds, hds⟩ : ∃ d ds, pre ++ emit = d :: ds :=
    List.exists_cons_of_ne_nil (by simpa [List.append_eq_nil_iff, or_iff_not_imp_left] using hne)
  have hall : ∀ e ∈ d :: ds, e.IsPrintable := hds ▸ List.forall_mem_append.mpr ⟨hpre, hemit⟩
  have hentries : (entriesOf pre emit).map (·.format.toList) =
      (d :: ds).map fun e => Text.joinWith '\n' e.printed := by
    rw [← hds, entriesOf, List.map_append, List.map_append, List.map_map, List.map_map]
    simp only [Function.comp_def, Diagnostic.toList_format]
  have hcollect := Outcome.collect_eq_failure (not_and_or.mpr hne)
  have hsettled : Outcome.collect (pre.map Diagnostic.settled) (emit.map Diagnostic.settled) =
      .failure (entriesOf pre emit) := by
    rw [← hcollect, Outcome.collect, Outcome.collect]
    simp only [entriesOf, List.map_map, Function.comp_def, Diagnostic.ofDiagnostic_settled]
  obtain ⟨last, hlast, hflush⟩ := Diagnostic.exists_readLines_flatMap hall cwd {}
  have hread : Output.readLines cwd {} (Text.linesFrom [] (aggregate (entriesOf pre emit)).toList) =
      .ok last := by
    rw [linesFrom_aggregate hentries hall, ← hlast, List.flatMap_cons, List.cons_append,
      Output.readLines_nil_cons]
  refine ⟨entriesOf pre emit, hcollect, ?_, hsettled⟩
  have hpreSettled : ∀ d ∈ pre.map Diagnostic.settled, ∀ code ∈ emitCodes, d.code ≠ some code :=
    List.forall_mem_map.mpr hpreCode
  have hemitSettled : ∀ d ∈ emit.map Diagnostic.settled, ∃ code ∈ emitCodes, d.code = some code :=
    List.forall_mem_map.mpr hemitCode
  obtain ⟨hpreFilter, hemitFilter⟩ := filter_isEmission hpreSettled hemitSettled
  rw [← List.map_append] at hpreFilter hemitFilter
  have hdiagnostics : (Output.flush last).diagnostics.reverse =
      (pre ++ emit).map Diagnostic.settled := by
    rw [hflush, hds]
    simp [Output.flush]
  rw [Output.parse_of_readLines hread, hdiagnostics, hpreFilter, hemitFilter, hflush]
  rfl

/-- A diagnostic with a chain of several levels, in a file whose name looks like a place. -/
def nestedDiagnostic : Diagnostic where
  code := some 2345
  message := .chain (.node "f(1,2): error TSX" [
    .node "Types differ." [.node "'A' is not 'B'." [], .node "\tSee TS1: " []],
    .node "TSFILE: /p" []])
  file := some "/p/a(3,4).ts"
  line := some 0
  column := some 7

/-- A diagnostic without a place, its message a chain without children. -/
def writeDiagnostic : Diagnostic where
  category := .warning
  code := some 5033
  message := .chain (.node "" [])

theorem isPrintable_nestedDiagnostic : nestedDiagnostic.IsPrintable where
  code := ⟨2345, rfl, by decide, by decide +kernel⟩
  place := .inr {
    file := ⟨_, rfl, {
      isNormal := by decide +kernel
      oneLine := by decide +kernel
      noBlankEnd := fun c hc => by
        obtain rfl : 's' = c := Option.mem_some_iff.mp hc
        decide
      noPlace := by decide +kernel }⟩
    line := ⟨0, rfl, by decide, by decide +kernel⟩
    column := ⟨7, rfl, by decide, by decide, by decide +kernel⟩ }
  root := by decide +kernel
  below := by decide +kernel

theorem isPrintable_writeDiagnostic : writeDiagnostic.IsPrintable where
  code := ⟨5033, rfl, by decide, by decide +kernel⟩
  place := .inl {
    file := rfl
    line := rfl
    column := rfl
    noPlace := not_holdsPlace_of_not_mem (by decide) }
  root := by decide +kernel
  below := by decide +kernel

/-- What is printed of the two comes back: the chain as it is, the text in place of the other. -/
theorem parse_aggregate_nested_write :
    (∀ d ∈ [nestedDiagnostic], d.IsPrintable) ∧ (∀ d ∈ [writeDiagnostic], d.IsPrintable) ∧
      (∀ d ∈ [nestedDiagnostic], ∀ code ∈ emitCodes, d.code ≠ some code) ∧
      (∀ d ∈ [writeDiagnostic], ∃ code ∈ emitCodes, d.code = some code) ∧
      ∃ entries, Outcome.collect [nestedDiagnostic] [writeDiagnostic] = .failure entries ∧
        Output.parse (aggregate entries) "/w" =
          .ok { pre := [nestedDiagnostic], emit := [{ writeDiagnostic with message := .plain "" }]
                emitted := [], unparsed := [] } ∧
        Outcome.collect [nestedDiagnostic] [{ writeDiagnostic with message := .plain "" }] =
          .failure entries := by
  have hpre : ∀ d ∈ [nestedDiagnostic], d.IsPrintable := by
    simpa using isPrintable_nestedDiagnostic
  have hemit : ∀ d ∈ [writeDiagnostic], d.IsPrintable := by
    simpa using isPrintable_writeDiagnostic
  have hpreCode : ∀ d ∈ [nestedDiagnostic], ∀ code ∈ emitCodes, d.code ≠ some code := by decide
  have hemitCode : ∀ d ∈ [writeDiagnostic], ∃ code ∈ emitCodes, d.code = some code := by
    simpa using ⟨5033, by decide, rfl⟩
  exact ⟨hpre, hemit, hpreCode, hemitCode,
    parse_aggregate hpre hemit hpreCode hemitCode (.inl (List.cons_ne_nil _ _)) "/w"⟩

end TsProject

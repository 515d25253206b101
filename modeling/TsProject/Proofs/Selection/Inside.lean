import TsProject.Proofs.Selection.Coverage

/-!
# Found files lie inside open directories

The components of a specification in front of its first wildcard are taken literally, so that
everything it takes lies below its base (`exists_trail_of_accepts`). A component with a wildcard
may well match a hidden name or that of a package directory; that no such directory lies between
the base and a found file is due to the walk. Of the roots that are walked, exactly one lies
around the base, and a file below the base is met from that root only, through open directories
(`exists_open_trail_of_mem_walk`). `inside_of_mem_matchFiles` puts the two together.
-/

namespace TsProject

namespace FileSpec

open Text (headed splitOnChar)
open TsProject.Path (IsName IsNormal ofNames trail)

/-! ### Literal components -/

/-- **Literal components** take themselves, whatever comes behind them. -/
theorem matchesFrom_literal_append_iff {exclude : Bool} {literal : List (List Char)}
    (hliteral : ∀ c ∈ literal, hasWildcardChars c = false) (components : List (List Char))
    {cs : List Char} : matchesFrom exclude (literal ++ components) cs ↔
      ∃ tail, cs = headed '/' literal ++ tail ∧ matchesFrom exclude components tail := by
  induction literal generalizing cs with
  | nil => simp
  | cons component literal ih =>
    obtain ⟨hplain, hliteral⟩ := List.forall_mem_cons.mp hliteral
    have hdirs : component ≠ anyDirsName := by
      rintro rfl
      exact absurd hplain (by decide)
    have hpieces : componentPieces exclude component = component.map .char := by
      simp [componentPieces, hplain]
    rw [List.cons_append, matchesFrom_name hdirs, matchesPieces_slash_iff, hpieces]
    simp only [matchesPieces_chars_iff, ih hliteral, Text.headed_cons, List.cons_append,
      List.append_assoc]
    constructor
    · rintro ⟨_, rfl, _, rfl, tail, rfl, h⟩
      exact ⟨tail, rfl, h⟩
    · rintro ⟨tail, rfl, h⟩
      exact ⟨_, rfl, _, rfl, tail, rfl, h⟩

/-- A component other than `**` takes at least a slash. -/
theorem exists_cons_of_matchesFrom {exclude : Bool} {components : List (List Char)}
    {cs : List Char} (hname : ∃ c ∈ components, c ≠ anyDirsName)
    (h : matchesFrom exclude components cs) : ∃ rest, cs = '/' :: rest := by
  induction components generalizing cs with
  | nil => simp at hname
  | cons component components ih =>
    by_cases hdirs : component = anyDirsName
    · subst hdirs
      have hothers : ∃ c ∈ components, c ≠ anyDirsName := by simpa using hname
      cases cs with
      | nil =>
        -- at the end of the text `**` passes nothing
        rw [matchesFrom_dirs, afterAnyDirs, afterOpenDirs] at h
        · exact ih hothers (by simpa using h)
        · rintro c rest ⟨⟩
      | cons c rest =>
        by_cases hc : c = '/'
        · exact ⟨rest, by rw [hc]⟩
        · rw [matchesFrom_dirs, afterAnyDirs_of_ne_slash hc, afterOpenDirs_of_ne_slash hc] at h
          exact ih hothers (by simpa using h)
    · rw [matchesFrom_name hdirs, matchesPieces_slash_iff] at h
      obtain ⟨rest, rfl, -⟩ := h
      exact ⟨rest, rfl⟩

/-! ### Below the base -/

/-- **Behind literal components** a path goes on, as long as not all of the others are `**`. -/
theorem exists_trail_of_literal {exclude : Bool} {literal rest : List (List Char)}
    (hslash : ∀ c ∈ literal, '/' ∉ c) (hliteral : ∀ c ∈ literal, hasWildcardChars c = false)
    (hname : ∃ c ∈ rest, c ≠ anyDirsName) {j : Nat} {names : List (List Char)}
    (hj : j + 1 = 1 ∨ j + 1 = 2) (hnil : names ≠ []) (hpath : ∀ n ∈ names, IsName n)
    (h : matchesFrom exclude (literal ++ rest) (ofNames (j + 1) names).toList) :
    ∃ more, more ≠ [] ∧ trail (ofNames (j + 1) names) = literal ++ more := by
  rw [matchesFrom_literal_append_iff hliteral] at h
  obtain ⟨tail, htext, htail⟩ := h
  obtain ⟨tail, rfl⟩ := exists_cons_of_matchesFrom hname htail
  have hparts := parts_eq_cons_trail hj hnil hpath
  rw [htext, Path.parts, Text.splitOnChar_append, ← List.nil_append (headed '/' _),
    Text.splitOnChar_headed (by simp) hslash, List.cons_append] at hparts
  exact ⟨_, Text.splitOnChar_ne_nil '/' tail, (List.cons_eq_cons.mp hparts).2.symm⟩

/-- **What a specification takes lies below its base**, at least one component further down. -/
theorem exists_trail_of_accepts {spec full : String} {exclude : Bool} (hspec : IsNormal spec)
    (hfull : expand spec = .ok full) {j : Nat} {names : List (List Char)}
    (hj : j + 1 = 1 ∨ j + 1 = 2) (hnil : names ≠ []) (hpath : ∀ n ∈ names, IsName n)
    (h : accepts exclude full (ofNames (j + 1) names)) :
    ∃ more, more ≠ [] ∧ trail (ofNames (j + 1) names) = trail (base full) ++ more := by
  obtain ⟨k, components, hk, hcomponents, hne, hlast, rfl⟩ := exists_names_of_expand hspec hfull
  obtain ⟨kept, rest, rfl, hrest, hplain, hbase⟩ := base_ofNames hk hne hcomponents
  have hliteral : ∀ c ∈ List.replicate k [] ++ kept, hasWildcardChars c = false :=
    List.forall_mem_append.mpr ⟨fun c hc => by rw [List.eq_of_mem_replicate hc]; rfl, hplain⟩
  have hsplit : trail (ofNames (k + 1) (kept ++ rest)) = List.replicate k [] ++ kept ++ rest := by
    rw [Path.trail_ofNames hk hcomponents, Nat.add_sub_cancel, List.append_assoc]
  have hslash : ∀ c ∈ List.replicate k [] ++ kept, '/' ∉ c := fun c hc =>
    Path.noSlash_of_mem_trail (hsplit ▸ List.mem_append_left rest hc)
  -- behind the literal components there is a slash, because not all of the others are `**`
  have hname : ∃ c ∈ rest, c ≠ anyDirsName := by
    refine ⟨rest.getLast hrest, List.getLast_mem hrest, fun heq => hlast ?_⟩
    rw [List.getLast?_append_of_ne_nil _ hrest, List.getLast?_eq_some_getLast hrest, heq]
  rw [accepts_ofNames exclude hk hne hcomponents, hsplit] at h
  obtain ⟨more, hmore, htrail⟩ :=
    exists_trail_of_literal hslash hliteral hname hj hnil hpath h
  rw [hbase]
  split_ifs with hroot
  · have hempty : trail "/" = [] := by decide
    refine ⟨_, ?_, by rw [hempty, List.nil_append, htrail]⟩
    exact List.append_ne_nil_of_right_ne_nil _ hmore
  · have hkept : ∀ n ∈ kept, IsName n := fun n hn => hcomponents n (List.mem_append_left _ hn)
    exact ⟨_, hmore, by rw [htrail, Path.trail_ofNames hk hkept, Nat.add_sub_cancel]⟩

end FileSpec

namespace Selection

open FileSpec (IsBase IsOpenName accepts base expand isWithin walkRoots)
open TsProject.Path (IsName IsNormal ofNames trail)

/-! ### Through open directories -/

/-- **One root meets a file below a base**: the one around the base, so that the directories
between the base and the file have been walked through. -/
theorem exists_open_trail_of_mem_walk {w : World} (hw : w.WellNamed) {specs : List String}
    (hspecs : ∀ spec ∈ specs, IsBase (base spec)) {spec root path : String} (hspec : spec ∈ specs)
    (hroot : root ∈ walkRoots specs) (hpath : path ∈ w.walk root)
    {more : List (List Char)} (hmore : more ≠ [])
    (htrail : trail path = trail (base spec) ++ more) :
    ∃ dirs name, (∀ n ∈ dirs, IsOpenName n) ∧ more = dirs ++ [name] := by
  obtain ⟨around, haround, hwithin⟩ := FileSpec.exists_isWithin_walkRoots hspec
  obtain ⟨⟨outer, houter, rfl⟩, houterMin⟩ := (FileSpec.mem_walkRoots_iff hspecs).mp haround
  obtain ⟨⟨inner, hinner, rfl⟩, hinnerMin⟩ := (FileSpec.mem_walkRoots_iff hspecs).mp hroot
  obtain ⟨between, hbetween⟩ :=
    (FileSpec.isWithin_iff_trail (hspecs outer houter) (hspecs spec hspec).isNormal).mp hwithin
  obtain ⟨passed, last, hpassed, hwalked⟩ :=
    exists_trail_of_mem_walk hw (hspecs inner hinner).isNormal hpath
  rw [← hbetween, List.append_assoc] at htrail
  rw [List.append_assoc] at hwalked
  -- both roots are above the file, so that one is above the other, and no root is above another
  have hsame : base inner = base outer := by
    rcases List.prefix_or_prefix_of_prefix (hwalked ▸ List.prefix_append _ _)
      (htrail ▸ List.prefix_append _ _) with h | h
    · exact houterMin inner hinner
        ((FileSpec.isWithin_iff_trail (hspecs inner hinner) (hspecs outer houter).isNormal).mpr h)
    · exact (hinnerMin outer houter ((FileSpec.isWithin_iff_trail (hspecs outer houter)
        (hspecs inner hinner).isNormal).mpr h)).symm
  rw [hsame, htrail, List.append_cancel_left_eq] at hwalked
  obtain ⟨dirs, name, rfl⟩ : ∃ dirs name, more = dirs ++ [name] := by
    obtain ⟨dirs, name, hconcat⟩ := List.eq_nil_or_concat more |>.resolve_left hmore
    exact ⟨dirs, name, by rw [hconcat, List.concat_eq_append]⟩
  rw [← List.append_assoc] at hwalked
  obtain ⟨rfl, -⟩ := List.append_inj' hwalked rfl
  exact ⟨dirs, name, fun n hn => hpassed n (List.mem_append_right _ hn), rfl⟩

/-- **Inside open directories**: a found file lies below the base of the first specification that
takes it, and every directory from there down to the file is open, that is, neither hidden nor a
package directory. -/
theorem inside_of_mem_matchFiles {w : World} (hw : w.WellNamed)
    {incl specs exclude extensions found : List String} {path : String}
    (hincl : ∀ s ∈ incl, IsNormal s) (hspecs : incl.map expand = specs.map .ok)
    (hfound : matchFiles w incl exclude extensions = .ok found) (hpath : path ∈ found) :
    ∃ spec dirs name, specs.find? (fun s => accepts false s path) = some spec ∧
      IsNormal path ∧ isWithin (base spec) path ∧
      trail path = trail (base spec) ++ dirs ++ [name] ∧ ∀ n ∈ dirs, IsOpenName n := by
  have hbases : ∀ spec ∈ specs, IsBase (base spec) := fun spec hspec =>
    FileSpec.isBase_of_mem hincl hspecs hspec
  obtain ⟨-, rfl⟩ := (matchFiles_eq_ok_iff hspecs).mp hfound
  obtain ⟨⟨root, hroot, hwalk⟩, -, -, taker, htaker, htakes⟩ :=
    mem_inBuckets_candidates_iff.mp hpath
  -- the first specification that takes the path
  obtain ⟨spec, hfirst⟩ : ∃ spec, specs.find? (fun s => accepts false s path) = some spec :=
    Option.isSome_iff_exists.mp (List.find?_isSome.mpr ⟨taker, htaker, htakes⟩)
  have hspec := List.mem_of_find?_eq_some hfirst
  have haccepts : accepts false spec path := by simpa using List.find?_some hfirst
  -- the path consists of names, being met below a base
  obtain ⟨outer, houter, rfl⟩ := FileSpec.exists_base_eq_of_mem_walkRoots hroot
  obtain ⟨k, names, hk, hnames, houterBase⟩ := (hbases outer houter).isNormal.exists_names
  obtain ⟨below, last, hbelow, hlast, rfl⟩ :=
    hw.exists_names_of_mem_walk hk hnames (houterBase ▸ hwalk)
  have hall : ∀ n ∈ names ++ below ++ [last], IsName n :=
    List.forall_mem_append.mpr ⟨List.forall_mem_append.mpr ⟨hnames, fun n hn => (hbelow n hn).1⟩,
      List.forall_mem_singleton.mpr hlast⟩
  have hnormal : IsNormal (ofNames (k + 1) (names ++ below ++ [last])) :=
    Path.isNormal_ofNames hk hall
  obtain ⟨s, hs, hexpand⟩ := FileSpec.exists_isNormal_of_mem hincl hspecs hspec
  obtain ⟨more, hmore, htrail⟩ :=
    FileSpec.exists_trail_of_accepts hs hexpand hk (by simp) hall haccepts
  obtain ⟨dirs, name, hopen, rfl⟩ :=
    exists_open_trail_of_mem_walk hw hbases hspec hroot hwalk hmore htrail
  refine ⟨spec, dirs, name, hfirst, hnormal, ?_, by rw [htrail, List.append_assoc], hopen⟩
  rw [FileSpec.isWithin_iff_trail (hbases spec hspec) hnormal, htrail]
  exact List.prefix_append _ _

/-- A source in a directory of `/p`. -/
def sourceIn (dir : String) : World :=
  { nodes := [(["p"], .dir), (["p", dir], .dir), (["p", dir, "a.ts"], .file [] false)] }

/-- The source is found in an open directory. In a package directory it is not, although the
specification takes it there as well. -/
theorem inside_sourceIn :
    (accepts false "/p/*/*.ts" "/p/node_modules/a.ts" ∧
      matchFiles (sourceIn "node_modules") ["/p/*/*.ts"] [] [".ts"] = .ok []) ∧
    ∃ spec dirs name, ["/p/*/*.ts"].find? (fun s => accepts false s "/p/src/a.ts") = some spec ∧
      IsNormal "/p/src/a.ts" ∧ isWithin (base spec) "/p/src/a.ts" ∧
      trail "/p/src/a.ts" = trail (base spec) ++ dirs ++ [name] ∧ ∀ n ∈ dirs, IsOpenName n := by
  have hspecs : ["/p/*/*.ts"].map expand = ["/p/*/*.ts"].map .ok := by decide
  have hfound : matchFiles (sourceIn "src") ["/p/*/*.ts"] [] [".ts"] = .ok ["/p/src/a.ts"] := by
    decide +kernel
  exact ⟨⟨by decide, by decide +kernel⟩,
    inside_of_mem_matchFiles (by decide) (by decide) hspecs hfound (by decide)⟩

end Selection

end TsProject

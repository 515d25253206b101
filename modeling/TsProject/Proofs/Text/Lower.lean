import Mathlib.Tactic.SplitIfs
import TsProject.Text.Lower

/-!
# Lower case: laws

A text in lower case stays as it is when it is put in lower case (`lower_lower`): none of its
characters is a capital (`isSmall_of_mem_lowerAfter`), and a text without capitals is its own lower
case (`lowerAfter_of_isSmall`). That the small letter of a capital is no capital itself is a
property of the table. It is checked for pairs of runs, not for single characters.
-/

namespace TsProject.Text

/-- **A small character**: no capital of the table, nor one of the two that are treated apart. -/
structure IsSmall (c : Char) : Prop where
  ne_sigma : c ≠ 'Σ'
  ne_dotted : c ≠ 'İ'
  not_covered : ∀ run ∈ lowerRuns, run.covers c.toNat = false

/-! ### The table -/

namespace CaseRun

/-- The small letter of the first capital of a run. -/
def firstSmall (r : CaseRun) : Nat := (r.first + r.shift).toNat

/-- The small letter of the last capital of a run. -/
def lastSmall (r : CaseRun) : Nat := (r.last + r.shift).toNat

/-- The small letters of a run are none of the capitals of another: they lie before or behind
them, or else between them. -/
def misses (r r' : CaseRun) : Bool :=
  Nat.blt r.lastSmall r'.first || Nat.blt r'.last r.firstSmall ||
    (Nat.beq r'.step 2 && (Nat.beq r.step 2 || Nat.beq r.first r.last) &&
      Nat.beq ((r.firstSmall - r'.first) % 2) 1)

/-- The small letters of a run leave a code point out. -/
def leavesOut (r : CaseRun) (n : Nat) : Bool := Nat.blt r.lastSmall n || Nat.blt n r.firstSmall

/-- The small letters of a run are characters, and neither of the capitals that are treated
apart. -/
def staysClear (r : CaseRun) : Bool :=
  Nat.blt 0 r.firstSmall && Nat.blt r.lastSmall 0x110000 &&
    (Nat.blt r.lastSmall 0xd800 || Nat.blt 0xdfff r.firstSmall) &&
    r.leavesOut 'Σ'.toNat && r.leavesOut 'İ'.toNat

/-- A capital that is covered and its small letter. -/
structure Leads (r : CaseRun) (n small : Nat) : Prop where
  first_le : r.first ≤ n
  le_last : n ≤ r.last
  step : (n - r.first) % r.step = 0
  moved : small = (n + r.shift).toNat
  pos : 0 < r.firstSmall

theorem Leads.bounds {r : CaseRun} {n small : Nat} (h : r.Leads n small) :
    small = r.firstSmall + (n - r.first) ∧ r.firstSmall ≤ small ∧ small ≤ r.lastSmall := by
  obtain ⟨hfirst, hlast, -, hmoved, hpos⟩ := h
  rw [firstSmall] at hpos ⊢
  rw [lastSmall]
  omega

/-- **Small letters that miss a run** are not covered by it. -/
theorem Leads.not_covers {r r' : CaseRun} {n small : Nat} (h : r.Leads n small)
    (hmisses : r.misses r') : r'.covers small = false := by
  obtain ⟨hsmall, hlow, hhigh⟩ := h.bounds
  have hstep := h.step
  have hfirst := h.first_le
  have hlast := h.le_last
  simp only [misses, Bool.or_eq_true, Bool.and_eq_true, Nat.blt_eq, Nat.beq_eq] at hmisses
  refine Bool.eq_false_iff.mpr fun hcovers => ?_
  simp only [covers, Bool.and_eq_true, decide_eq_true_eq, beq_iff_eq] at hcovers
  obtain ⟨⟨hfrom, hto⟩, hturn⟩ := hcovers
  rcases hmisses with (hbefore | hbehind) | ⟨⟨htwo, hsteps⟩, hodd⟩
  · omega
  · omega
  · rw [htwo] at hturn
    rcases hsteps with htwo' | hlone
    · rw [htwo'] at hstep
      omega
    · omega

end CaseRun

/-- **The table** leads to characters that it does not cover. -/
theorem misses_lowerRuns :
    (lowerRuns.all fun r => lowerRuns.all fun r' => r.misses r') = true := by decide +kernel

theorem staysClear_lowerRuns : (lowerRuns.all fun r => r.staysClear) = true := by decide +kernel

/-- **The small letter of a capital is small.** -/
theorem isSmall_of_covers {r : CaseRun} {n : Nat} (hr : r ∈ lowerRuns) (h : r.covers n) :
    IsSmall (Char.ofNat (n + r.shift).toNat) := by
  have hclear := List.all_eq_true.mp staysClear_lowerRuns r hr
  simp only [CaseRun.staysClear, CaseRun.leavesOut, Bool.and_eq_true, Bool.or_eq_true,
    Nat.blt_eq] at hclear
  obtain ⟨⟨⟨⟨hpos, htop⟩, hgap⟩, hsigma⟩, hdotted⟩ := hclear
  simp only [CaseRun.covers, Bool.and_eq_true, decide_eq_true_eq, beq_iff_eq] at h
  have hleads : r.Leads n (n + r.shift).toNat := ⟨h.1.1, h.1.2, h.2, rfl, hpos⟩
  obtain ⟨-, hlow, hhigh⟩ := hleads.bounds
  have hvalid : (n + r.shift).toNat.isValidChar := by
    rw [Nat.isValidChar]
    omega
  have hchar : (Char.ofNat (n + r.shift).toNat).toNat = (n + r.shift).toNat := by
    rw [Char.ofNat, dif_pos hvalid]
    rfl
  refine ⟨fun heq => ?_, fun heq => ?_, fun r' hr' => ?_⟩
  · rw [heq] at hchar
    omega
  · rw [heq] at hchar
    omega
  · rw [hchar]
    have hmisses := List.all_eq_true.mp (List.all_eq_true.mp misses_lowerRuns r hr) r' hr'
    exact hleads.not_covers hmisses

/-! ### Characters -/

theorem lowerChar_of_isSmall {c : Char} (h : IsSmall c) : lowerChar c = c := by
  have hnone : lowerRuns.find? (·.covers c.toNat) = none := by
    rw [List.find?_eq_none]
    intro r hr hcovers
    rw [h.not_covered r hr] at hcovers
    cases hcovers
  rw [lowerChar, hnone]

theorem isSmall_lowerChar {c : Char} (hsigma : c ≠ 'Σ') (hdotted : c ≠ 'İ') :
    IsSmall (lowerChar c) := by
  rw [lowerChar]
  cases hfind : lowerRuns.find? (·.covers c.toNat) with
  | some r =>
    have hcovers : r.covers c.toNat := by simpa using List.find?_some hfind
    exact isSmall_of_covers (List.mem_of_find?_eq_some hfind) hcovers
  | none =>
    refine ⟨hsigma, hdotted, fun r hr => ?_⟩
    simpa using List.find?_eq_none.mp hfind r hr

/-- The characters that the two capitals treated apart become are small. -/
theorem isSmall_apart : ∀ c ∈ ['ς', 'σ', 'i', '\u0307'], IsSmall c := by
  have hapart : (['ς', 'σ', 'i', '\u0307'].all fun c => c != 'Σ' && c != 'İ' &&
      lowerRuns.all fun r => !r.covers c.toNat) = true := by decide +kernel
  intro c hc
  have hsmall := List.all_eq_true.mp hapart c hc
  simp only [Bool.and_eq_true, bne_iff_ne, List.all_eq_true, Bool.not_eq_true'] at hsmall
  exact ⟨hsmall.1.1, hsmall.1.2, hsmall.2⟩

/-! ### Texts -/

/-- **Nothing but small characters** stands in a text in lower case. -/
theorem isSmall_of_mem_lowerAfter {before cs : List Char} {c : Char}
    (h : c ∈ lowerAfter before cs) : IsSmall c := by
  induction cs generalizing before with
  | nil => cases h
  | cons d cs ih =>
    rw [lowerAfter] at h
    rcases List.mem_append.mp h with hmapped | hrest
    · split_ifs at hmapped with hsigma hfinal hdotted
      · exact isSmall_apart c (by simp_all)
      · exact isSmall_apart c (by simp_all)
      · exact isSmall_apart c (by simp_all)
      · exact List.mem_singleton.mp hmapped ▸ isSmall_lowerChar hsigma hdotted
    · exact ih hrest

/-- **A text of small characters** is its own lower case. -/
theorem lowerAfter_of_isSmall {before cs : List Char} (h : ∀ c ∈ cs, IsSmall c) :
    lowerAfter before cs = cs := by
  induction cs generalizing before with
  | nil => rfl
  | cons c cs ih =>
    obtain ⟨hc, hcs⟩ := List.forall_mem_cons.mp h
    rw [lowerAfter, if_neg hc.ne_sigma, if_neg hc.ne_dotted, lowerChar_of_isSmall hc, ih hcs]
    rfl

/-- **Lower case stays as it is.** -/
theorem lower_lower (s : String) : lower (lower s) = lower s := by
  have hsmall : ∀ c ∈ (lower s).toList, IsSmall c := by
    rw [lower, String.toList_ofList]
    exact fun c => isSmall_of_mem_lowerAfter
  rw [lower, lowerAfter_of_isSmall hsmall, String.ofList_toList]

end TsProject.Text

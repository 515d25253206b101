import Mathlib.Data.List.Basic

/-!
# Orders of texts

Texts are ordered by their first different character; a beginning comes before what it begins,
and sorting puts a list in this order.

In a list without repetition made from another one the order is that of first occurrences:
`eraseDups` keeps it (`pairwise_idxOf_eraseDups`), and so does leaving elements out
(`idxOf_lt_of_filter`), so that it does not matter which comes first (`eraseDups_filter`).
-/

namespace TsProject.Text

theorem le_of_prefix {a b : String} (h : a.toList <+: b.toList) : a ≤ b := h.le

/-- **Sorted**: of two texts the smaller comes first. -/
theorem pairwise_mergeSort (texts : List String) :
    (texts.mergeSort (· ≤ ·)).Pairwise (· ≤ ·) := by
  have htrans : ∀ a b c : String, decide (a ≤ b) → decide (b ≤ c) → decide (a ≤ c) := by
    intro a b c hab hbc
    exact decide_eq_true (String.le_trans (of_decide_eq_true hab) (of_decide_eq_true hbc))
  have htotal : ∀ a b : String, decide (a ≤ b) || decide (b ≤ a) := by
    intro a b
    simpa using String.le_total a b
  exact (List.pairwise_mergeSort htrans htotal texts).imp of_decide_eq_true

end TsProject.Text

namespace TsProject

section FirstOccurrence

variable {α : Type} [DecidableEq α]

/-- Of two elements that stay, the one that occurs first still does. -/
theorem idxOf_lt_of_filter {p : α → Bool} {a b : α} {xs : List α} (ha : p a) (hb : p b)
    (h : (xs.filter p).idxOf a < (xs.filter p).idxOf b) : xs.idxOf a < xs.idxOf b := by
  induction xs with
  | nil => simp at h
  | cons x xs ih =>
    by_cases hx : p x
    · rw [List.filter_cons_of_pos hx] at h
      have hxb : x ≠ b := by
        rintro rfl
        simp at h
      by_cases hxa : x = a
      · rw [hxa, List.idxOf_cons_self, List.idxOf_cons_ne _ (hxa ▸ hxb)]
        exact Nat.succ_pos _
      · rw [List.idxOf_cons_ne _ hxa, List.idxOf_cons_ne _ hxb] at h ⊢
        exact Nat.succ_lt_succ (ih (Nat.lt_of_succ_lt_succ h))
    · rw [List.filter_cons_of_neg hx] at h
      have hxa : x ≠ a := fun heq => hx (heq ▸ ha)
      have hxb : x ≠ b := fun heq => hx (heq ▸ hb)
      rw [List.idxOf_cons_ne _ hxa, List.idxOf_cons_ne _ hxb]
      exact Nat.succ_lt_succ (ih h)

/-- **Without repetition**, elements come in the order of their first occurrences. -/
theorem pairwise_idxOf_eraseDups (xs : List α) :
    xs.eraseDups.Pairwise fun a b => xs.idxOf a < xs.idxOf b := by
  -- the induction is on the length: behind its head, the list goes on without the head's copies
  induction hn : xs.length using Nat.strongRecOn generalizing xs with
  | ind n ih =>
    cases xs with
    | nil => simp
    | cons x xs =>
      have hlength : (xs.filter fun b => !b == x).length < n := by
        have := List.length_filter_le (fun b => !b == x) xs
        simp only [List.length_cons] at hn
        omega
      rw [List.eraseDups_cons, List.pairwise_cons]
      constructor
      · intro b hb
        have hne : b ≠ x := by
          simpa using (List.mem_filter.mp (List.mem_eraseDups.mp hb)).2
        rw [List.idxOf_cons_self, List.idxOf_cons_ne _ (Ne.symm hne)]
        exact Nat.succ_pos _
      · refine (ih _ hlength _ rfl).imp_of_mem ?_
        intro a b ha hb hab
        have hrest := fun c (hc : c ∈ (xs.filter fun b => !b == x).eraseDups) =>
          (List.mem_filter.mp (List.mem_eraseDups.mp hc)).2
        have hne := fun c hc => Ne.symm (show c ≠ x by simpa using hrest c hc)
        rw [List.idxOf_cons_ne _ (hne a ha), List.idxOf_cons_ne _ (hne b hb)]
        exact Nat.succ_lt_succ (idxOf_lt_of_filter (hrest a ha) (hrest b hb) hab)

theorem nodup_eraseDups (xs : List α) : xs.eraseDups.Nodup :=
  (pairwise_idxOf_eraseDups xs).imp fun hab heq => by simp [heq] at hab

/-- **Leaving elements out** may come before leaving repetitions out or after. -/
theorem eraseDups_filter (p : α → Bool) (xs : List α) :
    (xs.filter p).eraseDups = xs.eraseDups.filter p := by
  have hordered : (xs.filter p).eraseDups.Pairwise fun a b => xs.idxOf a < xs.idxOf b :=
    (pairwise_idxOf_eraseDups _).imp_of_mem fun {a b} ha hb hab =>
      idxOf_lt_of_filter (List.mem_filter.mp (List.mem_eraseDups.mp ha)).2
        (List.mem_filter.mp (List.mem_eraseDups.mp hb)).2 hab
  have hmem : ∀ a, a ∈ (xs.filter p).eraseDups ↔ a ∈ xs.eraseDups.filter p := fun a => by
    rw [List.mem_eraseDups, List.mem_filter, List.mem_filter, List.mem_eraseDups]
  have hperm : (xs.filter p).eraseDups.Perm (xs.eraseDups.filter p) :=
    (List.perm_ext_iff_of_nodup (nodup_eraseDups _) ((nodup_eraseDups xs).filter p)).mpr hmem
  have hasymm : ∀ a b, a ∈ (xs.filter p).eraseDups → b ∈ xs.eraseDups.filter p →
      xs.idxOf a < xs.idxOf b → xs.idxOf b < xs.idxOf a → a = b := by
    intro a b _ _ hab hba
    omega
  exact hperm.eq_of_pairwise hasymm hordered ((pairwise_idxOf_eraseDups xs).filter p)

end FirstOccurrence

end TsProject

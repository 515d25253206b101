import Mathlib.Data.List.Basic
import TsProject.Text.Digit

/-!
# Numerals

A numeral is a run of decimal digits of any script, at least one. The usual decimal text of a
number is one (`isNumeral_toString`), and its value is the number (`natOfDigits_toString`).
-/

namespace TsProject.Text

/-- A **numeral**: decimal digits, at least one. -/
structure IsNumeral (cs : List Char) : Prop where
  ne_nil : cs ≠ []
  isDecimal : ∀ c ∈ cs, isDecimal c

/-- The usual digits have their usual values. -/
theorem digitValue?_of_isDigit {c : Char} (h : c.isDigit) :
    digitValue? c = some (c.toNat - 48) := by
  obtain ⟨hlow, hhigh⟩ : 48 ≤ c.toNat ∧ c.toNat ≤ 57 := by
    simpa [Char.isDigit, UInt32.le_iff_toNat_le] using h
  have hfound : digitZeros.find? (fun z => z ≤ c.toNat && c.toNat < z + 10) = some 48 := by
    rw [digitZeros, List.find?_cons_of_pos]
    simp only [Bool.and_eq_true, decide_eq_true_eq]
    omega
  rw [digitValue?, hfound, Option.map_some]

theorem digitValue?_digitChar {d : Nat} (h : d < 10) : digitValue? d.digitChar = some d := by
  have hdigit : d.digitChar.isDigit :=
    Nat.isDigit_of_mem_toDigits (b := 10) (n := d) (by decide) (by decide)
      (by simp [Nat.toDigits_of_lt_base h])
  rw [digitValue?_of_isDigit hdigit, Nat.toNat_digitChar_of_lt_ten h, Nat.add_sub_cancel_left]

theorem isNumeral_toDigits (n : Nat) : IsNumeral (Nat.toDigits 10 n) where
  ne_nil := Nat.toDigits_ne_nil
  isDecimal c hc := by
    rw [isDecimal, digitValue?_of_isDigit
      (Nat.isDigit_of_mem_toDigits (by decide) (by decide) hc), Option.isSome_some]

theorem natOfDigits_concat (cs : List Char) (c : Char) :
    natOfDigits (cs ++ [c]) = 10 * natOfDigits cs + (digitValue? c).getD 0 := by
  rw [natOfDigits, List.foldl_append]
  rfl

theorem natOfDigits_toDigits (n : Nat) : natOfDigits (Nat.toDigits 10 n) = n := by
  induction n using Nat.strongRecOn with
  | ind n ih =>
    rw [Nat.toDigits_eq_if (by decide)]
    split_ifs with hsmall
    · have hlast : natOfDigits ([] ++ [n.digitChar]) = n := by
        rw [natOfDigits_concat, digitValue?_digitChar hsmall, Option.getD_some]
        exact Nat.zero_add n
      exact hlast
    · rw [natOfDigits_concat, ih (n / 10) (by omega),
        digitValue?_digitChar (Nat.mod_lt _ (by decide)), Option.getD_some]
      omega

theorem toList_toString (n : Nat) : (toString n).toList = Nat.toDigits 10 n := by
  rw [show toString n = String.ofList (Nat.toDigits 10 n) from rfl, String.toList_ofList]

/-- The text of a number is a numeral. -/
theorem isNumeral_toString (n : Nat) : IsNumeral (toString n).toList :=
  toList_toString n ▸ isNumeral_toDigits n

/-- **The text of a number** has its value. -/
theorem natOfDigits_toString (n : Nat) : natOfDigits (toString n).toList = n := by
  rw [toList_toString, natOfDigits_toDigits]

end TsProject.Text

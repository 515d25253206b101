import TsProject.Proofs.Options.Kinds
import TsProject.Proofs.Text.Lower

/-!
# Settled options

Checking options puts some of their texts in lower case, which changes nothing when it is done
again (`OptionKind.settle_settle`). An option of the table with a value of its kind that is
settled already is called `IsSettled`: checking leads to such options (`isSettled_of_check`), and
accepts them with the values that they have (`check_of_isSettled`).
-/

namespace TsProject

namespace OptionKind

theorem lowerText_lowerText (v : Json) : lowerText (lowerText v) = lowerText v := by
  cases v with
  | str s => exact congrArg Json.str (Text.lower_lower s)
  | _ => rfl

/-- **Settling twice** is settling once. -/
theorem settle_settle (kind : OptionKind) (v : Json) :
    kind.settle (kind.settle v) = kind.settle v := by
  cases kind with
  | choice names => exact lowerText_lowerText v
  | loweredTexts =>
    cases v with
    | arr items => simp [settle, lowerText_lowerText, Function.comp_def]
    | _ => rfl
  | _ => rfl

/-- A settled value is of the same kind. -/
theorem Admits.settle {kind : OptionKind} {v : Json} (h : Admits kind v) :
    Admits kind (kind.settle v) := by
  rw [← faults_settle_eq_nil_iff] at h ⊢
  rw [settle_settle, h]

end OptionKind

namespace CompilerOptions

theorem settledValue_of_mem {spec : OptionSpec} (hspec : spec ∈ OptionSpec.all) (v : Json) :
    settledValue spec.name v = spec.kind.settle v := by
  rw [settledValue, OptionSpec.find?_eq_some_iff.mpr ⟨hspec, rfl⟩]

/-- **An option as it is kept**: one of the table with a value of its kind, which is settled. -/
structure IsSettled (key : String) (v : Json) : Prop where
  isOption : IsOption key v
  settled : settledValue key v = v

theorem isSettled_of_mem {spec : OptionSpec} (hspec : spec ∈ OptionSpec.all) {v : Json}
    (hadmits : spec.kind.Admits v) (hsettled : spec.kind.settle v = v) :
    IsSettled spec.name v where
  isOption := ⟨spec, hspec, rfl, hadmits⟩
  settled := by rw [settledValue_of_mem hspec, hsettled]

/-- **Settling** keeps an option of the table one. -/
theorem IsOption.isSettled {key : String} {v : Json} (h : IsOption key v) :
    IsSettled key (settledValue key v) := by
  obtain ⟨spec, hspec, rfl, hadmits⟩ := h
  rw [settledValue_of_mem hspec]
  exact isSettled_of_mem hspec hadmits.settle (spec.kind.settle_settle v)

/-! ### Options as a whole -/

variable {options : Fields}

/-- **Accepted options** are settled. -/
theorem isSettled_of_check {raw : Fields} (h : check raw = .ok options) {key : String} {v : Json}
    (hv : options.get? key = some v) : IsSettled key v := by
  obtain ⟨hproblems, -⟩ := check_eq_ok_iff.mp h
  rw [get?_of_check h] at hv
  obtain ⟨given, hgiven, rfl⟩ := Option.map_eq_some_iff.mp hv
  exact (problems_eq_nil_iff.mp hproblems key given hgiven).isSettled

/-- **Settled options** are accepted, with the same values. -/
theorem check_of_isSettled (h : ∀ key v, options.get? key = some v → IsSettled key v) :
    check options = .ok (settle options) ∧
      ∀ key, (settle options).get? key = options.get? key := by
  have hproblems : problems options = [] :=
    problems_eq_nil_iff.mpr fun key v hv => (h key v hv).isOption
  have hcheck : check options = .ok (settle options) := check_eq_ok_iff.mpr ⟨hproblems, rfl⟩
  refine ⟨hcheck, fun key => ?_⟩
  rw [get?_of_check hcheck]
  cases hget : options.get? key with
  | none => rfl
  | some v => exact congrArg some (h key v hget).settled

end CompilerOptions

end TsProject

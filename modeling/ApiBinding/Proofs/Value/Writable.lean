import ApiBinding.Proofs.Outcome
import ApiBinding.TypeExpr.Literal
import ApiBinding.Value.Display
import Mathlib.Algebra.Ring.Int.Defs
import Mathlib.Algebra.Ring.Nat

/-! Which values are written: those in which no integer, key or value, has more digits than the
limit. -/

namespace ApiBinding

/-- The digits of an integer are within the limit if it lies between the powers of ten. -/
theorem Integer.isWritable_iff {number : Int} :
    isWritable number = true ↔ number.natAbs < 10 ^ digitLimit := by
  rw [isWritable, decide_eq_true_iff]
  exact Nat.length_toDigits_le_iff (by decide) (by decide)

theorem Value.isWritable_iff {value : Value} :
    value.isWritable = true ↔
      ∀ number ∈ value.integers, number.natAbs < 10 ^ Integer.digitLimit := by
  rw [isWritable, List.all_eq_true]
  exact forall₂_congr fun number _ => Integer.isWritable_iff

/-- Some integer in a value has too many digits. -/
def Value.HasLongInteger (value : Value) : Prop :=
  ∃ number ∈ value.integers, 10 ^ Integer.digitLimit ≤ number.natAbs

theorem Value.not_isWritable_iff {value : Value} :
    value.isWritable = false ↔ value.HasLongInteger := by
  rw [← Bool.not_eq_true, isWritable_iff, HasLongInteger]
  simp only [not_forall, Nat.not_lt, exists_prop]

/-- A value with an integer that is too long has no form. -/
theorem Value.shown_eq_error {value : Value} {failure : Failure}
    (h : value.shown = .error failure) :
    failure = .defect .integerTooLong ∧ value.HasLongInteger := by
  unfold shown at h
  split at h
  · simp at h
  · rename_i long
    exact ⟨(Except.error.inj h).symm, not_isWritable_iff.mp (by simpa using long)⟩

theorem Value.ends_shown (value : Value) :
    Ends value.shown (fun text => value.shown = .ok text)
      (Stops fun defect => defect = .integerTooLong ∧ value.HasLongInteger) := by
  refine ⟨id, fun failed => ?_⟩
  obtain ⟨rfl, long⟩ := shown_eq_error failed
  exact .defect ⟨rfl, long⟩

theorem Value.shown_eq_ok {value : Value} (short : value.isWritable = true) :
    value.shown = .ok value.display :=
  if_pos short

namespace Json

theorem write_eq_ok {value : Value} (short : value.isWritable = true) :
    write value = .ok (render value) :=
  if_pos short

theorem write_eq_ok_iff {value : Value} {text : String} :
    write value = .ok text ↔ value.isWritable = true ∧ render value = text := by
  unfold write
  split <;> simp_all

theorem write_eq_error {value : Value} (long : value.isWritable = false) :
    write value = .error (.defect .integerTooLong) :=
  if_neg (by simp [long])

/-- Values are written in a row until one of them is not. -/
theorem mapM_write (values : List Value) :
    values.mapM write =
      if values.all Value.isWritable then .ok (values.map render)
      else .error (.defect .integerTooLong) := by
  induction values with
  | nil => rfl
  | cons value rest ih =>
      rw [List.mapM_cons, ih]
      cases short : value.isWritable with
      | false => simp [write_eq_error short, short, bind, Except.bind]
      | true =>
          rw [write_eq_ok short]
          cases others : rest.all Value.isWritable <;>
            simp [short, others, bind, Except.bind, pure, Except.pure]

end Json

namespace TypeExpr

variable {values : List Value}

/-- Literals are the texts of the values, each once, if all values are written. -/
theorem ofLiterals_eq (values : List Value) :
    ofLiterals values =
      if values.all Value.isWritable then .ok (.literals (values.map Json.render).eraseDups)
      else .error (.defect .integerTooLong) := by
  rw [ofLiterals, literalTexts, Json.mapM_write]
  split <;> rfl

theorem ofLiterals_eq_ok_iff {type : TypeExpr} :
    ofLiterals values = .ok type ↔
      (∀ value ∈ values, value.isWritable = true) ∧
        type = .literals (values.map Json.render).eraseDups := by
  rw [ofLiterals_eq, ← List.all_eq_true]
  by_cases short : values.all Value.isWritable = true
  · rw [if_pos short, Except.ok.injEq, eq_comm]
    exact (and_iff_right short).symm
  · rw [if_neg short]
    simp [short]

theorem literals_ne_nil (nonempty : values ≠ []) : (values.map Json.render).eraseDups ≠ [] := by
  obtain ⟨value, rest, rfl⟩ := List.exists_cons_of_ne_nil nonempty
  simp [List.eraseDups_cons]

/-- Literals are not made only if one of the values cannot be written. -/
theorem ofLiterals_eq_error_iff {failure : Failure} :
    ofLiterals values = .error failure ↔
      failure = .defect .integerTooLong ∧ ∃ value ∈ values, value.HasLongInteger := by
  have long : ¬ values.all Value.isWritable = true ↔ ∃ value ∈ values, value.HasLongInteger := by
    simp [List.all_eq_true, Value.not_isWritable_iff]
  rw [ofLiterals_eq, ← long]
  by_cases short : values.all Value.isWritable = true
  · rw [if_pos short]
    simp [short]
  · rw [if_neg short, Except.error.injEq, eq_comm]
    exact (and_iff_left short).symm

end TypeExpr

end ApiBinding

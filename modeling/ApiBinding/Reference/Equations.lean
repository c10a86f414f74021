import ApiBinding.Reference.Table

/-! Computation rules for pointer segments and references. -/

namespace ApiBinding

namespace Pointer

/-- Escaping loses nothing. -/
@[simp] theorem unescape_escape (text : List Char) : unescape (escape text) = text := by
  induction text with
  | nil => rfl
  | cons c rest ih =>
    by_cases tilde : c = '~'
    · simp [escape, unescape, tilde, ih]
    · by_cases slash : c = '/'
      · simp [escape, unescape, slash, ih]
      · simp only [escape, beq_iff_eq, tilde, slash, if_false]
        rw [unescape.eq_3 _ _ (by simp_all) (by simp_all), ih]

/-- An escaped segment holds no slash. -/
theorem slash_not_mem_escape (text : List Char) : '/' ∉ escape text := by
  induction text with
  | nil => simp [escape]
  | cons c rest ih =>
    by_cases tilde : c = '~'
    · simp [escape, tilde, ih]
    · by_cases slash : c = '/'
      · simp [escape, slash, ih]
      · have slash' : '/' ≠ c := Ne.symm slash
        simp [escape, tilde, slash, slash', ih]

/-- What is refused has no value, whether or not its form can be shown. -/
@[simp] theorem refuse_ne_ok {α : Type} (target : Value) (value : α) :
    refuse target ≠ .ok value := by
  unfold refuse
  cases target.shown <;> simp [bind, Except.bind]

end Pointer

end ApiBinding

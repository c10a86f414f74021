import ApiBinding.Json.Reader
import Mathlib.Data.List.TakeWhile

/-! Numbers. The rules say how a number is written after its sign; such a text is read to its end as
the number of the rules, and no other text is read as a number. -/

namespace ApiBinding.Json

/-! ## Rules -/

/-- One or more digits. -/
structure DigitsText (text : List Char) : Prop where
  nonempty : text ≠ []
  digits : ∀ c ∈ text, c.isDigit = true

/-- The digits of a whole number, without a superfluous zero in front. -/
structure WholeText (text : List Char) : Prop extends DigitsText text where
  noZero : text = ['0'] ∨ text.head? ≠ some '0'

/-- A fraction and its digits, if there is one. -/
inductive FractionText : List Char → List Char → Prop where
  | none : FractionText [] []
  | digits {digits} : DigitsText digits → FractionText ('.' :: digits) digits

/-- An exponent and its value, if there is one. -/
inductive ExponentText : List Char → Int → Prop where
  | none : ExponentText [] 0
  | bare {mark digits} : mark ∈ ['e', 'E'] → DigitsText digits →
      ExponentText (mark :: digits) (Nat.ofDigitChars 10 digits 0)
  | positive {mark digits} : mark ∈ ['e', 'E'] → DigitsText digits →
      ExponentText (mark :: '+' :: digits) (Nat.ofDigitChars 10 digits 0)
  | negative {mark digits} : mark ∈ ['e', 'E'] → DigitsText digits →
      ExponentText (mark :: '-' :: digits) (-(Nat.ofDigitChars 10 digits 0 : Int))

/-- A number after its sign. One without a fraction and an exponent is whole and has few enough
digits; any other one is the nearest binary number. -/
inductive MagnitudeText (negative : Bool) : List Char → Value → Prop where
  | int {whole} : WholeText whole → whole.length ≤ Integer.digitLimit →
      MagnitudeText negative whole
        (.int (if negative then -(Nat.ofDigitChars 10 whole 0 : Int)
          else Nat.ofDigitChars 10 whole 0))
  | float {whole fraction digits exponent power} : WholeText whole →
      FractionText fraction digits → ExponentText exponent power → fraction ++ exponent ≠ [] →
      MagnitudeText negative (whole ++ fraction ++ exponent)
        (.float (Binary64.ofDecimal negative (Nat.ofDigitChars 10 (whole ++ digits) 0)
          (power - digits.length)))

/-- What follows a number: nothing that could belong to it. -/
def EndsNumber (rest : List Char) : Prop :=
  ∀ c ∈ rest.head?, c.isDigit = false ∧ c ∉ ['.', 'e', 'E']

/-! ## Digits -/

variable {text rest digits : List Char}

theorem digitsValue_eq (digits : List Char) : digitsValue digits = Nat.ofDigitChars 10 digits 0 :=
  rfl

/-- Digits are taken up to the first character that is none. -/
theorem takeWhile_digits (h : ∀ c ∈ digits, c.isDigit = true)
    (ends : ∀ c ∈ rest.head?, c.isDigit = false) :
    (digits ++ rest).takeWhile Char.isDigit = digits ∧
      (digits ++ rest).dropWhile Char.isDigit = rest := by
  rw [List.takeWhile_append_of_pos h, List.dropWhile_append_of_pos h]
  cases rest with
  | nil => simp
  | cons c rest =>
      have other := ends c rfl
      simp [other]

theorem digitsText_takeWhile (nonempty : text.takeWhile Char.isDigit ≠ []) :
    DigitsText (text.takeWhile Char.isDigit) :=
  ⟨nonempty, List.all_eq_true.mp List.all_takeWhile⟩

/-! ## Parts -/

theorem exists_fractionText {left : List Char} (h : splitFraction text = (digits, left)) :
    ∃ own, text = own ++ left ∧ FractionText own digits := by
  unfold splitFraction at h
  split at h
  · rename_i rest
    split at h
    · obtain ⟨rfl, rfl⟩ := Prod.mk.inj h
      exact ⟨[], rfl, .none⟩
    · rename_i some
      obtain ⟨rfl, rfl⟩ := Prod.mk.inj h
      refine ⟨'.' :: rest.takeWhile Char.isDigit, ?_, .digits (digitsText_takeWhile some)⟩
      simp [List.takeWhile_append_dropWhile]
  · obtain ⟨rfl, rfl⟩ := Prod.mk.inj h
    exact ⟨[], rfl, .none⟩

theorem splitFraction_append (h : FractionText text digits)
    (ends : ∀ c ∈ rest.head?, c.isDigit = false ∧ c ≠ '.') :
    splitFraction (text ++ rest) = (digits, rest) := by
  cases h with
  | none =>
      rw [List.nil_append]
      unfold splitFraction
      split
      · exact absurd rfl (ends '.' rfl).2
      · rfl
  | digits written =>
      obtain ⟨taken, left⟩ := takeWhile_digits written.digits fun c member => (ends c member).1
      simp only [List.cons_append, splitFraction]
      rw [taken, left]
      split
      · exact absurd rfl written.nonempty
      · rfl

theorem eq_nil_of_fractionText (h : FractionText text []) : text = [] := by
  cases h with
  | none => rfl
  | digits written => exact absurd rfl written.nonempty

/-- No digit stands behind a whole number. -/
theorem head_fractionText (h : FractionText text digits)
    (ends : ∀ c ∈ rest.head?, c.isDigit = false ∧ c ≠ '.') :
    ∀ c ∈ (text ++ rest).head?, c.isDigit = false := by
  cases h with
  | none => exact fun c member => (ends c member).1
  | digits _ => simp

theorem exists_powerText {negative : Bool} {power : Int} {left : List Char}
    (h : readPower? negative text = some (power, left)) :
    ∃ own, text = own ++ left ∧ DigitsText own ∧
      power = if negative then -(Nat.ofDigitChars 10 own 0 : Int)
        else Nat.ofDigitChars 10 own 0 := by
  unfold readPower? at h
  split at h
  · simp at h
  · rename_i some
    obtain ⟨rfl, rfl⟩ := Prod.mk.inj (Option.some.inj h)
    exact ⟨_, List.takeWhile_append_dropWhile.symm, digitsText_takeWhile some, rfl⟩

theorem readPower?_append (h : DigitsText text) (ends : ∀ c ∈ rest.head?, c.isDigit = false)
    (negative : Bool) :
    readPower? negative (text ++ rest) =
      some (if negative then -(Nat.ofDigitChars 10 text 0 : Int) else Nat.ofDigitChars 10 text 0,
        rest) := by
  obtain ⟨taken, left⟩ := takeWhile_digits h.digits ends
  unfold readPower?
  rw [taken, left]
  split
  · exact absurd rfl h.nonempty
  · rfl

theorem exists_exponentText {power : Int} {left : List Char}
    (h : splitExponent? text = some (power, left)) :
    ∃ own, text = own ++ left ∧ own ≠ [] ∧ ExponentText own power := by
  unfold splitExponent? at h
  split at h
  · simp at h
  · rename_i mark signed
    split at h
    · rename_i marked
      have marked : mark ∈ ['e', 'E'] := by simpa using marked
      split at h
      · obtain ⟨own, rfl, written, rfl⟩ := exists_powerText h
        exact ⟨mark :: '-' :: own, rfl, by simp, .negative marked written⟩
      · obtain ⟨own, rfl, written, rfl⟩ := exists_powerText h
        exact ⟨mark :: '+' :: own, rfl, by simp, .positive marked written⟩
      · obtain ⟨own, rfl, written, rfl⟩ := exists_powerText h
        exact ⟨mark :: own, rfl, by simp, .bare marked written⟩
    · simp at h

theorem eq_zero_of_exponentText {power : Int} (h : ExponentText [] power) : power = 0 := by
  cases h
  rfl

/-- Neither a digit nor a point stands behind a fraction. -/
theorem head_exponentText {power : Int} (h : ExponentText text power) (ends : EndsNumber rest) :
    ∀ c ∈ (text ++ rest).head?, c.isDigit = false ∧ c ≠ '.' := by
  have mark {mark : Char} (marked : mark ∈ ['e', 'E']) : mark.isDigit = false ∧ mark ≠ '.' := by
    simp only [List.mem_cons, List.not_mem_nil, or_false] at marked
    rcases marked with rfl | rfl <;> decide
  cases h with
  | none =>
      intro c member
      obtain ⟨noDigit, other⟩ := ends c member
      exact ⟨noDigit, fun same => other (by simp [same])⟩
  | bare marked _ => simpa using mark marked
  | positive marked _ => simpa using mark marked
  | negative marked _ => simpa using mark marked

theorem splitExponent?_append {power : Int} (h : ExponentText text power) (present : text ≠ [])
    (ends : ∀ c ∈ rest.head?, c.isDigit = false) :
    splitExponent? (text ++ rest) = some (power, rest) := by
  have marks {mark : Char} (marked : mark ∈ ['e', 'E']) :
      (mark == 'e' || mark == 'E') = true := by simpa using marked
  cases h with
  | none => exact absurd rfl present
  | positive marked written =>
      simp only [List.cons_append, splitExponent?, marks marked, if_true]
      exact readPower?_append written ends false
  | negative marked written =>
      simp only [List.cons_append, splitExponent?, marks marked, if_true]
      exact readPower?_append written ends true
  | @bare mark digits marked written =>
      obtain ⟨first, others, rfl⟩ := List.exists_cons_of_ne_nil written.nonempty
      have digit := written.digits first List.mem_cons_self
      simp only [List.cons_append, splitExponent?, marks marked, if_true]
      split
      · rename_i same
        obtain ⟨rfl, -⟩ := List.cons.inj same
        exact absurd digit (by decide)
      · rename_i same
        obtain ⟨rfl, -⟩ := List.cons.inj same
        exact absurd digit (by decide)
      · exact readPower?_append written ends false

theorem splitExponent?_of_ends (ends : EndsNumber rest) : splitExponent? rest = none := by
  unfold splitExponent?
  split
  · rfl
  · rename_i mark signed
    have other := (ends mark rfl).2
    rw [if_neg]
    simp only [List.mem_cons, List.not_mem_nil, or_false, not_or] at other
    simp [other]

/-! ## Numbers -/

theorem wholeText_wholeDigits (nonempty : wholeDigits text ≠ []) :
    WholeText (wholeDigits text) ∧
      text = wholeDigits text ++ text.drop (wholeDigits text).length := by
  unfold wholeDigits at nonempty ⊢
  split at nonempty
  · exact ⟨⟨⟨by simp, List.forall_mem_singleton.mpr (by decide)⟩, .inl rfl⟩, rfl⟩
  · rename_i noZero
    have split := @List.takeWhile_append_dropWhile _ Char.isDigit text
    refine ⟨⟨digitsText_takeWhile nonempty, .inr ?_⟩, ?_⟩
    · intro zero
      obtain ⟨others, taken⟩ := List.head?_eq_some_iff.mp zero
      rw [taken, List.cons_append] at split
      exact noZero _ split.symm
    · have front : text.take (text.takeWhile Char.isDigit).length = text.takeWhile Char.isDigit :=
        List.prefix_iff_eq_take.mp (List.takeWhile_prefix _) |>.symm
      rw [← front, List.length_take_of_le (List.takeWhile_prefix _).length_le,
        List.take_append_drop]

theorem wholeDigits_append (h : WholeText text) (ends : ∀ c ∈ rest.head?, c.isDigit = false) :
    wholeDigits (text ++ rest) = text := by
  rcases h.noZero with rfl | other
  · rfl
  · obtain ⟨first, others, rfl⟩ := List.exists_cons_of_ne_nil h.nonempty
    unfold wholeDigits
    split
    · rename_i same
      obtain ⟨rfl, -⟩ := List.cons.inj same
      exact absurd rfl other
    · exact (takeWhile_digits h.digits ends).1

/-- What is read as a number is one, and what follows it is left. -/
theorem exists_magnitudeText {negative : Bool} {value : Value} {left : List Char}
    (h : readMagnitude negative text = .ok (value, left)) :
    ∃ own, text = own ++ left ∧ MagnitudeText negative own value := by
  unfold readMagnitude at h
  dsimp only at h
  split at h
  · simp at h
  · rename_i present
    obtain ⟨whole, front⟩ := wholeText_wholeDigits (by simpa using present)
    generalize parted : splitFraction (text.drop (wholeDigits text).length) = parts at h
    obtain ⟨digits, tail⟩ := parts
    obtain ⟨fraction, fractionTail, written⟩ := exists_fractionText parted
    rw [fractionTail, ← List.append_assoc] at front
    dsimp only at h
    split at h
    · rename_i power rest found
      obtain ⟨exponent, exponentTail, present, marked⟩ := exists_exponentText found
      obtain ⟨rfl, rfl⟩ := Prod.mk.inj (Except.ok.inj h)
      rw [exponentTail, ← List.append_assoc] at front
      exact ⟨_, front, .float whole written marked (by simp [present])⟩
    · split at h
      · rename_i none
        obtain rfl := List.isEmpty_iff.mp none
        obtain rfl := eq_nil_of_fractionText written
        split at h
        · simp at h
        · rename_i short
          obtain ⟨rfl, rfl⟩ := Prod.mk.inj (Except.ok.inj h)
          rw [List.append_nil] at front ⊢
          exact ⟨_, front, .int whole (Nat.not_lt.mp short)⟩
      · rename_i some
        obtain ⟨rfl, rfl⟩ := Prod.mk.inj (Except.ok.inj h)
        have present : fraction ++ [] ≠ [] := by
          cases written with
          | none => exact absurd List.isEmpty_nil some
          | digits _ => simp
        have number := @MagnitudeText.float negative _ _ _ _ _ whole written .none present
        rw [List.append_nil, Int.zero_sub] at number
        exact ⟨_, front, number⟩

/-- A number is read to its end. -/
theorem readMagnitude_append {negative : Bool} {value : Value}
    (h : MagnitudeText negative text value) (ends : EndsNumber rest) :
    readMagnitude negative (text ++ rest) = .ok (value, rest) := by
  cases h with
  | int whole short =>
      have other := head_exponentText .none ends
      have digits := wholeDigits_append whole fun c member => (other c member).1
      have fraction := splitFraction_append .none other
      have nonempty : text.isEmpty = false := by simpa using whole.nonempty
      rw [List.nil_append, List.nil_append] at fraction
      rw [List.nil_append] at digits
      unfold readMagnitude
      simp only [digits, nonempty, List.drop_left, fraction, splitExponent?_of_ends ends,
        List.isEmpty_nil, Bool.false_eq_true, if_false, if_true, List.append_nil,
        if_neg (Nat.not_lt.mpr short), digitsValue_eq]
  | @float whole fraction digits exponent power hwhole hfraction hexponent present =>
      have other := head_exponentText hexponent ends
      have tail := splitFraction_append hfraction other
      have front := wholeDigits_append hwhole (head_fractionText hfraction other)
      have nonempty : whole.isEmpty = false := by simpa using hwhole.nonempty
      unfold readMagnitude
      simp only [List.append_assoc, front, nonempty, List.drop_left, tail, Bool.false_eq_true,
        if_false, digitsValue_eq]
      by_cases marked : exponent = []
      · subst marked
        obtain rfl := eq_zero_of_exponentText hexponent
        have written : digits.isEmpty = false := by
          cases hfraction with
          | none => exact absurd rfl present
          | digits own => simpa using own.nonempty
        simp [splitExponent?_of_ends ends, written]
      · rw [splitExponent?_append hexponent marked fun c member => (ends c member).1]

end ApiBinding.Json

import ApiBinding.Json.Writer
import ApiBinding.Proofs.Json.Notation
import ApiBinding.Proofs.Value.Writable

/-! JSON texts of plain values: the text that is written for a null, a truth value, an integer or a
string stands for this value, so that it is read back as it was. -/

namespace ApiBinding.Json

variable {room : Nat} {value : Value}

/-! ## Strings -/

/-- What a character is written as between quotes stands for this character. -/
theorem charText_escapeChar (c : Char) : CharText (escapeChar c) c := by
  by_cases letter : c ∈ ['"', '\\', '\n', '\r', '\t', '\x0c', '\x08']
  · simp only [List.mem_cons, List.not_mem_nil, or_false] at letter
    rcases letter with rfl | rfl | rfl | rfl | rfl | rfl | rfl
    all_goals exact .single (.letter (by decide))
  · simp only [List.mem_cons, List.not_mem_nil, or_false, not_or] at letter
    obtain ⟨noQuote, noEscape, noLine, noReturn, noTab, noFeed, noBack⟩ := letter
    simp only [escapeChar, beq_iff_eq, noQuote, noEscape, noLine, noReturn, noTab, noFeed, noBack,
      if_false]
    split
    · have zero : IsHexDigit '0' 0 := by decide
      have high : IsHexDigit (Nat.digitChar (c.toNat / 16)) (c.toNat / 16) := ⟨by omega, .inl rfl⟩
      have low : IsHexDigit (Nat.digitChar (c.toNat % 16)) (c.toNat % 16) := ⟨by omega, .inl rfl⟩
      have digits := UnitText.digits zero zero high low
      rw [show 0x1000 * 0 + 0x100 * 0 + 0x10 * (c.toNat / 16) + c.toNat % 16 = c.toNat by omega]
        at digits
      exact .single digits
    · rename_i visible
      exact .single (.plain noQuote noEscape (Nat.not_lt.mp visible))

theorem quotedText_escaped (content : List Char) :
    QuotedText (content.flatMap escapeChar) content := by
  induction content with
  | nil => exact .nil
  | cons c content ih => exact .cons (charText_escapeChar c) ih

theorem denotes_quote (content : String) :
    Denotes room (quote content).toList (.value (some (.text content))) := by
  rw [quote, String.toList_ofList]
  exact .text (.whole (quotedText_escaped content.toList))

/-! ## Integers -/

theorem head?_toDigits {number : Nat} (positive : 0 < number) :
    (Nat.toDigits 10 number).head? ≠ some '0' := by
  induction number using Nat.strongRecOn with
  | ind number ih =>
      by_cases small : number < 10
      · have all : ∀ digit < 10, 0 < digit → Nat.digitChar digit ≠ '0' := by decide
        rw [Nat.toDigits_of_lt_base small]
        simpa using all number small positive
      · have shorter := ih (number / 10) (by omega) (by omega)
        obtain ⟨first, rest, front⟩ :=
          List.exists_cons_of_ne_nil (Nat.toDigits_ne_nil (n := number / 10) (b := 10))
        rw [front] at shorter
        rw [Nat.toDigits_of_base_le (by decide) (by omega), front]
        simpa using shorter

theorem wholeText_toDigits (number : Nat) : WholeText (Nat.toDigits 10 number) where
  nonempty := Nat.toDigits_ne_nil
  digits _ := Nat.isDigit_of_mem_toDigits (by decide) (by decide)
  noZero := by
    rcases Nat.eq_zero_or_pos number with rfl | positive
    · exact .inl rfl
    · exact .inr (head?_toDigits positive)

theorem toList_int (number : Int) :
    (toString number).toList =
      (if number < 0 then ['-'] else []) ++ Nat.toDigits 10 number.natAbs := by
  cases number with
  | ofNat magnitude => exact Nat.toList_repr
  | negSucc magnitude =>
      show ("-" ++ (magnitude + 1).repr).toList = _
      simp [Int.negSucc_lt_zero]

/-- The digits of an integer stand for it, unless they are too many. -/
theorem denotes_int {number : Int} (short : Integer.isWritable number = true) :
    Denotes room (toString number).toList (.value (some (.int number))) := by
  have few : (Nat.toDigits 10 number.natAbs).length ≤ Integer.digitLimit := by
    simpa [Integer.isWritable] using short
  have digits : Nat.ofDigitChars 10 (Nat.toDigits 10 number.natAbs) 0 = number.natAbs :=
    Nat.ofDigitChars_toDigits (by decide) (by decide)
  rw [toList_int]
  split
  · have size : -(number.natAbs : Int) = number := by omega
    have magnitude := @MagnitudeText.int true _ (wholeText_toDigits number.natAbs) few
    rw [digits, if_pos rfl, size] at magnitude
    exact .negative magnitude
  · have size : (number.natAbs : Int) = number := by omega
    have magnitude := @MagnitudeText.int false _ (wholeText_toDigits number.natAbs) few
    rw [digits, if_neg Bool.false_ne_true, size] at magnitude
    exact .positive magnitude

/-! ## Plain values -/

/-- A null, a truth value, an integer or a string. -/
def IsPlain : Value → Prop
  | .null | .bool _ | .int _ | .text _ => True
  | .float _ | .date _ | .list _ | .object _ => False

/-- The text of a plain value stands for this value. -/
theorem denotes_write {text : String} (plain : IsPlain value) (written : write value = .ok text) :
    Denotes room text.toList (.value (some value)) := by
  obtain ⟨short, rfl⟩ := write_eq_ok_iff.mp written
  cases value with
  | null => exact .null
  | bool flag => exact .bool flag
  | int number => exact denotes_int (by simpa [Value.isWritable, Value.integers] using short)
  | text content => exact denotes_quote content
  | float number => exact plain.elim
  | date day => exact plain.elim
  | list items => exact plain.elim
  | object entries => exact plain.elim

/-- What is written for a plain value is read back as this value. -/
theorem read_write {text : String} (plain : IsPlain value) (written : write value = .ok text)
    (room : Nat) : read room text = .ok (some value) := by
  have noGap : IsGap [] := by simp [IsGap]
  exact read_eq_ok_iff.mpr
    ⟨[], text.toList, [], by simp, noGap, noGap, denotes_write plain written⟩

/-- Plain values with one text are one value: the text tells which one it was. -/
theorem eq_of_write_eq {other : Value} {text : String} (plain : IsPlain value)
    (plain' : IsPlain other) (written : write value = .ok text)
    (written' : write other = .ok text) : value = other :=
  Option.some.inj
    (Except.ok.inj ((read_write plain written 0).symm.trans (read_write plain' written' 0)))

end ApiBinding.Json

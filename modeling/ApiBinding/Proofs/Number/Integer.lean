import ApiBinding.Number.Integer
import ApiBinding.Proofs.Text.Pieces
import Mathlib.Tactic.Ring

/-! Which texts are read as integers. Blanks stand around, then comes a sign or none, then groups
of decimal digits of any script with low lines between them. -/

namespace ApiBinding

namespace Text

/-! ## Blanks and digits -/

/-- The blanks that may surround a number. -/
def isMargin (c : Char) : Bool :=
  isLayoutBlank c || isWideBlank c

/-- The code points of these blanks. -/
def marginCodes : List Nat :=
  [32, 9, 10, 11, 12, 13, 0x85, 0xa0, 0x1680, 0x2028, 0x2029, 0x202f, 0x205f, 0x3000, 0x2000,
    0x2001, 0x2002, 0x2003, 0x2004, 0x2005, 0x2006, 0x2007, 0x2008, 0x2009, 0x200a]

theorem mem_marginCodes {c : Char} (blank : isMargin c = true) : c.toNat ∈ marginCodes := by
  simp only [isMargin, isLayoutBlank, isWideBlank, Bool.or_eq_true, Bool.and_eq_true,
    decide_eq_true_eq, List.contains_iff_mem] at blank
  simp only [marginCodes, List.mem_cons, List.not_mem_nil, or_false] at blank ⊢
  rcases blank with (space | ⟨low, high⟩) | (wide | ⟨low, high⟩)
  · obtain rfl := eq_of_beq space
    exact .inl rfl
  all_goals omega

/-- No decimal digit is a blank. -/
theorem isMargin_eq_false {c : Char} {value : Nat} (found : decimalValue? c = some value) :
    isMargin c = false := by
  have apart : ∀ code ∈ marginCodes, ∀ first ∈ decimalZeros,
      (first ≤ code && code < first + 10) = false := by decide +kernel
  rw [Bool.eq_false_iff]
  intro blank
  obtain ⟨first, block, -⟩ := Option.map_eq_some_iff.mp found
  have without := apart _ (mem_marginCodes blank) first (List.mem_of_find?_eq_some block)
  have within := List.find?_some block
  simp [without] at within

end Text

namespace Integer

open Text

/-! ## Margins -/

section Margins

variable {text front back : List Char}

/-- Only blanks are removed. -/
theorem exists_margins (text : List Char) : ∃ front back, text = front ++ trim text ++ back ∧
    (∀ c ∈ front, isMargin c = true) ∧ ∀ c ∈ back, isMargin c = true := by
  let kept := text.dropWhile isMargin
  refine ⟨text.takeWhile isMargin, (kept.reverse.takeWhile isMargin).reverse, ?_, ?_, ?_⟩
  · have tail : kept = trim text ++ (kept.reverse.takeWhile isMargin).reverse := by
      have whole := congrArg List.reverse
        (List.takeWhile_append_dropWhile (p := isMargin) (l := kept.reverse))
      rw [List.reverse_append, List.reverse_reverse] at whole
      exact whole.symm
    rw [List.append_assoc, ← tail, List.takeWhile_append_dropWhile]
  · exact List.all_eq_true.mp List.all_takeWhile
  · exact fun c member => List.all_eq_true.mp List.all_takeWhile c (List.mem_reverse.mp member)

theorem dropWhile_margin (nonempty : text ≠ []) (solid : ∀ c ∈ text, isMargin c = false)
    (rest : List Char) : (text ++ rest).dropWhile isMargin = text ++ rest := by
  obtain ⟨c, text, rfl⟩ := List.exists_cons_of_ne_nil nonempty
  rw [List.cons_append, List.dropWhile_cons_of_neg (by simp [solid c List.mem_cons_self])]

theorem trim_margins (nonempty : text ≠ []) (solid : ∀ c ∈ text, isMargin c = false)
    (before : ∀ c ∈ front, isMargin c = true) (after : ∀ c ∈ back, isMargin c = true) :
    trim (front ++ text ++ back) = text := by
  have start : (front ++ text ++ back).dropWhile isMargin = text ++ back := by
    rw [List.append_assoc, List.dropWhile_append_of_pos before, dropWhile_margin nonempty solid]
  have finish : (text ++ back).reverse.dropWhile isMargin = text.reverse := by
    rw [List.reverse_append, List.dropWhile_append_of_pos (by simpa using after)]
    simpa using dropWhile_margin (List.reverse_ne_nil_iff.mpr nonempty) (by simpa using solid) []
  calc trim (front ++ text ++ back)
      = (((front ++ text ++ back).dropWhile isMargin).reverse.dropWhile isMargin).reverse := rfl
    _ = text := by rw [start, finish, List.reverse_reverse]

end Margins

/-! ## Numerals -/

/-- The number that digits stand for, the first digit being that of the largest power of ten. -/
def positional (digits : List Nat) : Nat :=
  digits.foldl (fun value digit => 10 * value + digit) 0

/-- Groups of decimal digits with a low line between each two, not too many digits in all. -/
inductive Magnitude : List Char → Nat → Prop where
  | groups {groups : List (List Char)} {digits} : groups ≠ [] → (∀ group ∈ groups, group ≠ []) →
      groups.flatten.mapM decimalValue? = some digits → digits.length ≤ digitLimit →
      Magnitude (['_'].intercalate groups) (positional digits)

inductive Signed : List Char → Int → Prop where
  | plain {text number} : Magnitude text number → Signed text number
  | plus {text number} : Magnitude text number → Signed ('+' :: text) number
  | minus {text number} : Magnitude text number → Signed ('-' :: text) (-number)

/-- How an integer may be written. -/
inductive Numeral : List Char → Int → Prop where
  | within {front text back number} : (∀ c ∈ front, isMargin c = true) → Signed text number →
      (∀ c ∈ back, isMargin c = true) → Numeral (front ++ text ++ back) number

variable {text : List Char} {number : Int}

theorem decimalValue?_of_mapM {digits : List Nat} (found : text.mapM decimalValue? = some digits) :
    ∀ c ∈ text, ∃ value, decimalValue? c = some value := by
  induction text generalizing digits with
  | nil => simp
  | cons c rest ih =>
      rw [List.mapM_cons] at found
      obtain ⟨value, first, found⟩ := Option.bind_eq_some_iff.mp found
      obtain ⟨values, others, -⟩ := Option.bind_eq_some_iff.mp found
      exact List.forall_mem_cons.mpr ⟨⟨value, first⟩, ih others⟩

theorem exists_mapM (decimal : ∀ c ∈ text, (decimalValue? c).isSome = true) :
    ∃ digits, text.mapM decimalValue? = some digits ∧ digits.length = text.length := by
  induction text with
  | nil => exact ⟨[], rfl, rfl⟩
  | cons c rest ih =>
      obtain ⟨first, others⟩ := List.forall_mem_cons.mp decimal
      obtain ⟨value, first⟩ := Option.isSome_iff_exists.mp first
      obtain ⟨values, others, length⟩ := ih others
      exact ⟨value :: values, by simp [first, others], by simp [length]⟩

theorem Magnitude.ne_nil {number : Nat} (h : Magnitude text number) : text ≠ [] := by
  cases h with
  | @groups groups digits some each values short =>
      obtain ⟨group, rest, rfl⟩ := List.exists_cons_of_ne_nil some
      obtain ⟨c, group, rfl⟩ := List.exists_cons_of_ne_nil (each group List.mem_cons_self)
      cases rest <;> simp [List.intercalate]

/-- A magnitude has low lines and decimal digits only. -/
theorem Magnitude.mem {number : Nat} (h : Magnitude text number) :
    ∀ c ∈ text, c = '_' ∨ ∃ value, decimalValue? c = some value := by
  cases h with
  | @groups groups digits some each values short =>
      intro c member
      rcases mem_intercalate member with line | ⟨group, inside, member⟩
      · exact .inl (List.mem_singleton.mp line)
      · exact .inr (decimalValue?_of_mapM values c (List.mem_flatten.mpr ⟨group, inside, member⟩))

theorem readMagnitude?_eq_some_iff {number : Nat} :
    readMagnitude? text = some number ↔ Magnitude text number := by
  constructor
  · intro read
    rw [readMagnitude?] at read
    split at read
    · simp at read
    · rename_i full
      split at read
      · rename_i digits values
        split at read
        · simp at read
        · rename_i short
          obtain rfl := Option.some.inj read
          rw [← intercalate_pieces '_' text]
          refine .groups (pieces_ne_nil _ _) ?_ values (Nat.not_lt.mp short)
          rintro group member rfl
          exact full (List.any_eq_true.mpr ⟨[], member, rfl⟩)
      · simp at read
  · rintro ⟨some, each, values, short⟩
    rename_i groups digits
    have whole : pieces (· == '_') (['_'].intercalate groups) = groups := by
      refine pieces_intercalate (fun group inside member => ?_) some
      obtain ⟨value, found⟩ := decimalValue?_of_mapM values '_'
        (List.mem_flatten.mpr ⟨group, inside, member⟩)
      have line : decimalValue? '_' = none := by decide +kernel
      simp [line] at found
    have full : groups.any (·.isEmpty) = false := by
      simpa using each
    rw [readMagnitude?, whole]
    simp [full, values, Nat.not_lt.mpr short, positional]

theorem Signed.solid (h : Signed text number) : text ≠ [] ∧ ∀ c ∈ text, isMargin c = false := by
  have marks : isMargin '_' = false ∧ isMargin '+' = false ∧ isMargin '-' = false := by
    decide +kernel
  have solid {text : List Char} {number : Nat} (h : Magnitude text number) :
      ∀ c ∈ text, isMargin c = false := by
    intro c member
    rcases h.mem c member with rfl | ⟨value, found⟩
    · exact marks.1
    · exact isMargin_eq_false found
  cases h with
  | plain magnitude => exact ⟨magnitude.ne_nil, solid magnitude⟩
  | plus magnitude =>
      exact ⟨List.cons_ne_nil _ _, List.forall_mem_cons.mpr ⟨marks.2.1, solid magnitude⟩⟩
  | minus magnitude =>
      exact ⟨List.cons_ne_nil _ _, List.forall_mem_cons.mpr ⟨marks.2.2, solid magnitude⟩⟩

/-- Exactly the numerals are read. -/
theorem read?_eq_some_iff : read? text = some number ↔ Numeral text number := by
  constructor
  · intro read
    obtain ⟨front, back, whole, before, after⟩ := exists_margins text
    have signed : Signed (trim text) number := by
      unfold read? at read
      split at read
      · rename_i rest trimmed
        cases magnitude : readMagnitude? rest with
        | none => simp [magnitude] at read
        | some value =>
            obtain rfl : -(value : Int) = number := by simpa [magnitude] using read
            exact trimmed ▸ .minus (readMagnitude?_eq_some_iff.mp magnitude)
      · rename_i rest trimmed
        obtain ⟨value, magnitude, rfl⟩ := Option.map_eq_some_iff.mp read
        exact trimmed ▸ .plus (readMagnitude?_eq_some_iff.mp magnitude)
      · obtain ⟨value, magnitude, rfl⟩ := Option.map_eq_some_iff.mp read
        exact .plain (readMagnitude?_eq_some_iff.mp magnitude)
    rw [whole]
    exact .within before signed after
  · rintro ⟨before, signed, after⟩
    obtain ⟨nonempty, solid⟩ := signed.solid
    unfold read?
    rw [trim_margins nonempty solid before after]
    cases signed with
    | plain magnitude =>
        have signs : decimalValue? '-' = none ∧ decimalValue? '+' = none := by decide +kernel
        split
        · rcases magnitude.mem '-' List.mem_cons_self with same | ⟨value, found⟩
          · simp at same
          · simp [signs.1] at found
        · rcases magnitude.mem '+' List.mem_cons_self with same | ⟨value, found⟩
          · simp at same
          · simp [signs.2] at found
        · rw [readMagnitude?_eq_some_iff.mpr magnitude]
          rfl
    | plus magnitude => simp [readMagnitude?_eq_some_iff.mpr magnitude]
    | minus magnitude => simp [readMagnitude?_eq_some_iff.mpr magnitude]

/-- Digits with nothing around or between them are read, if they are not too many. -/
theorem read?_of_mapM {digits : List Nat} (nonempty : text ≠ [])
    (values : text.mapM decimalValue? = some digits) :
    read? text = if digits.length > digitLimit then none else some ↑(positional digits) := by
  have decimal := decimalValue?_of_mapM values
  have others : decimalValue? '-' = none ∧ decimalValue? '+' = none ∧ decimalValue? '_' = none := by
    decide +kernel
  have trimmed : trim text = text := by
    have solid : ∀ c ∈ text, isMargin c = false := by
      intro c member
      obtain ⟨value, found⟩ := decimal c member
      exact isMargin_eq_false found
    have bare : trim ([] ++ text ++ []) = text := trim_margins nonempty solid (by simp) (by simp)
    simpa using bare
  have whole : pieces (· == '_') text = [text] := by
    refine pieces_eq_self fun c member => beq_eq_false_iff_ne.mpr ?_
    rintro rfl
    obtain ⟨value, found⟩ := decimal '_' member
    simp [others.2.2] at found
  unfold read?
  rw [trimmed]
  split
  · obtain ⟨value, found⟩ := decimal '-' List.mem_cons_self
    simp [others.1] at found
  · obtain ⟨value, found⟩ := decimal '+' List.mem_cons_self
    simp [others.2.1] at found
  · rw [readMagnitude?, whole]
    by_cases long : digits.length > digitLimit <;> simp [nonempty, values, long, positional]

theorem exists_read? (nonempty : text ≠ [])
    (decimal : ∀ c ∈ text, (decimalValue? c).isSome = true) (short : text.length ≤ digitLimit) :
    ∃ number, read? text = some number := by
  obtain ⟨digits, values, length⟩ := exists_mapM decimal
  have fits : ¬ digits.length > digitLimit := Nat.not_lt.mpr (length ▸ short)
  exact ⟨_, by rw [read?_of_mapM nonempty values, if_neg fits]⟩

/-! ## Plain digits -/

/-- The values of the digits of the first script. -/
def plainDigits (text : List Char) : List Nat :=
  text.map fun c => c.toNat - '0'.toNat

theorem toNat_of_isDigit {c : Char} (digit : c.isDigit = true) : 48 ≤ c.toNat ∧ c.toNat ≤ 57 := by
  simpa [Char.isDigit, UInt32.le_iff_toNat_le] using digit

theorem decimalValue?_of_isDigit {c : Char} (digit : c.isDigit = true) :
    decimalValue? c = some (c.toNat - '0'.toNat) := by
  obtain ⟨low, high⟩ := toNat_of_isDigit digit
  have first : decimalZeros = 48 :: decimalZeros.tail := rfl
  have inside : (48 ≤ c.toNat && c.toNat < 48 + 10) = true := by
    simp only [Bool.and_eq_true, decide_eq_true_eq]
    omega
  rw [decimalValue?, first, List.find?_cons_of_pos]
  · rfl
  · exact inside

theorem mapM_plainDigits (digits : ∀ c ∈ text, c.isDigit = true) :
    text.mapM decimalValue? = some (plainDigits text) := by
  induction text with
  | nil => rfl
  | cons c rest ih =>
      obtain ⟨first, others⟩ := List.forall_mem_cons.mp digits
      rw [List.mapM_cons, decimalValue?_of_isDigit first, ih others]
      rfl

/-- The first digit alone bounds the number from below. -/
theorem mul_pow_le_positional (digit : Nat) (rest : List Nat) :
    digit * 10 ^ rest.length ≤ positional (digit :: rest) := by
  suffices general : ∀ start : Nat, start * 10 ^ rest.length ≤
      rest.foldl (fun value digit => 10 * value + digit) start by
    simpa [positional] using general digit
  induction rest with
  | nil => simp
  | cons next rest ih =>
      intro start
      calc start * 10 ^ (rest.length + 1) = (10 * start) * 10 ^ rest.length := by ring
        _ ≤ (10 * start + next) * 10 ^ rest.length :=
            Nat.mul_le_mul_right _ (Nat.le_add_right _ _)
        _ ≤ rest.foldl (fun value digit => 10 * value + digit) (10 * start + next) := ih _

end Integer

end ApiBinding

import ApiBinding.Json.Reader

/-! Texts in quotes. The rules say how each character can be written between quotes; a text is read
as the characters that the rules give it, and as no others. Code units that are the characters of no
text are read, too, but have no content. -/

namespace ApiBinding.Json

/-! ## Rules -/

/-- The characters that a letter stands for behind a backslash. -/
def escapes : List (Char × Char) := [
  ('"', '"'), ('\\', '\\'), ('/', '/'), ('b', '\x08'), ('f', '\x0c'), ('n', '\n'), ('r', '\r'),
  ('t', '\t')]

/-- A digit to the base of sixteen, in either case. -/
def IsHexDigit (c : Char) (digit : Nat) : Prop :=
  digit < 16 ∧ (c = Nat.digitChar digit ∨ c = (Nat.digitChar digit).toUpper)

instance (c : Char) (digit : Nat) : Decidable (IsHexDigit c digit) :=
  inferInstanceAs (Decidable (_ ∧ _))

/-- The ways to write a code unit: as the character itself, by a letter, or by four digits. -/
inductive UnitText : List Char → Nat → Prop where
  | plain {c} : c ≠ '"' → c ≠ '\\' → 0x20 ≤ c.toNat → UnitText [c] c.toNat
  | letter {letter c} : (letter, c) ∈ escapes → UnitText ['\\', letter] c.toNat
  | digits {a b c d i j k l} : IsHexDigit a i → IsHexDigit b j → IsHexDigit c k →
      IsHexDigit d l →
      UnitText ['\\', 'u', a, b, c, d] (0x1000 * i + 0x100 * j + 0x10 * k + l)

/-- The ways to write a character: by its own code unit, or as a pair of a high half and a low
one. -/
inductive CharText : List Char → Char → Prop where
  | single {text c} : UnitText text c.toNat → CharText text c
  | pair {high low c i j} : UnitText high (0xd800 + i) → UnitText low (0xdc00 + j) → i < 0x400 →
      j < 0x400 → c.toNat = 0x10000 + 0x400 * i + j → CharText (high ++ low) c

/-- What stands between quotes for a content. -/
inductive QuotedText : List Char → List Char → Prop where
  | nil : QuotedText [] []
  | cons {text c rest content} : CharText text c → QuotedText rest content →
      QuotedText (text ++ rest) (c :: content)

/-- The code units that are written one after the other. -/
inductive UnitsText : List Char → List Nat → Prop where
  | nil : UnitsText [] []
  | cons {text unit rest units} : UnitText text unit → UnitsText rest units →
      UnitsText (text ++ rest) (unit :: units)

/-- What stands between quotes, and its content, which code units have only if they are those of
characters. -/
inductive BetweenQuotes : List Char → Option String → Prop where
  | whole {text} {content : String} : QuotedText text content.toList →
      BetweenQuotes text (some content)
  | broken {text units} : UnitsText text units → (∀ content, ¬ QuotedText text content) →
      BetweenQuotes text none

/-! ## Code units -/

variable {text after : List Char} {unit : Nat} {units : List Nat}

theorem hexValue?_eq_some_iff {c : Char} {digit : Nat} :
    hexValue? c = some digit ↔ IsHexDigit c digit := by
  constructor
  · intro found
    have table : ∀ code < 103, ∀ digit ∈ hexValue? (Char.ofNat code),
        IsHexDigit (Char.ofNat code) digit := by decide
    have small : c.toNat < 103 := by
      refine Nat.lt_of_not_le fun large => ?_
      have above (bound : Char) (h : bound.toNat < 103) : ¬ c ≤ bound := by
        intro le
        have : c.toNat ≤ bound.toNat := le
        omega
      simp [hexValue?, above] at found
    rw [← Char.ofNat_toNat c]
    exact table c.toNat small digit (by rwa [Char.ofNat_toNat])
  · rintro ⟨small, either⟩
    have digits : ∀ digit < 16, hexValue? (Nat.digitChar digit) = some digit ∧
        hexValue? (Nat.digitChar digit).toUpper = some digit := by decide
    rcases either with rfl | rfl
    · exact (digits digit small).1
    · exact (digits digit small).2

theorem escaped?_eq_some_iff {letter c : Char} :
    escaped? letter = some c ↔ (letter, c) ∈ escapes := by
  unfold escaped?
  split <;> simp_all [escapes, eq_comm]

/-- A code unit is read from each way to write it, whatever follows. -/
theorem readUnits_append (h : UnitText text unit) (rest : List Char) :
    readUnits (text ++ rest) =
      (readUnits rest).map fun (units, after) => (unit :: units, after) := by
  cases h with
  | @plain c noQuote noEscape visible =>
      rw [List.singleton_append, readUnits.eq_4 _ _ noQuote (by simp [noEscape])
        (by simp [noEscape]), if_neg (Nat.not_lt.mpr visible)]
      cases readUnits rest <;> rfl
  | @letter letter c member =>
      have notCode : letter ≠ 'u' := by
        rintro rfl
        simp [escapes] at member
      rw [List.cons_append, List.singleton_append, readUnits.eq_3 _ _ (by simp [notCode]),
        escaped?_eq_some_iff.mpr member]
      cases readUnits rest <;> rfl
  | @digits a b c d i j k l first second third fourth =>
      have value : 16 * (16 * (16 * i + j) + k) + l = 0x1000 * i + 0x100 * j + 0x10 * k + l := by
        omega
      simp only [List.cons_append, List.nil_append, readUnits, List.mapM_cons, List.mapM_nil,
        hexValue?_eq_some_iff.mpr first, hexValue?_eq_some_iff.mpr second,
        hexValue?_eq_some_iff.mpr third, hexValue?_eq_some_iff.mpr fourth, Option.pure_def,
        Option.bind_eq_bind, Option.bind_some, List.foldl_cons, List.foldl_nil, Nat.mul_zero,
        Nat.zero_add, value]
      cases readUnits rest <;> rfl

/-- What is read stands in front of the closing quote. The induction follows the reader, case by
case; only three of its cases read a code unit. -/
theorem exists_unitsText (h : readUnits text = .ok (units, after)) :
    ∃ own, text = own ++ '"' :: after ∧ UnitsText own units := by
  have extend {front rest : List Char} {unit : Nat} (written : UnitText front unit)
      {units : List Nat} {after : List Char}
      (ih : ∀ {units after}, readUnits rest = .ok (units, after) →
        ∃ own, rest = own ++ '"' :: after ∧ UnitsText own units)
      (h : readUnits (front ++ rest) = .ok (units, after)) :
      ∃ own, front ++ rest = own ++ '"' :: after ∧ UnitsText own units := by
    rw [readUnits_append written] at h
    cases read : readUnits rest with
    | error error => simp [read, Except.map] at h
    | ok result =>
        obtain ⟨others, left⟩ := result
        simp only [read, Except.map, Except.ok.injEq, Prod.mk.injEq] at h
        obtain ⟨rfl, rfl⟩ := h
        obtain ⟨own, rfl, unitsText⟩ := ih read
        exact ⟨front ++ own, by simp, .cons written unitsText⟩
  induction text using readUnits.induct generalizing units after with
  | case1 rest =>
      rw [readUnits] at h
      obtain ⟨rfl, rfl⟩ := Prod.mk.inj (Except.ok.inj h)
      exact ⟨[], rfl, .nil⟩
  | case2 a b c d rest digits found ih =>
      simp only [List.mapM_cons, List.mapM_nil, Option.pure_def, Option.bind_eq_bind,
        Option.bind_eq_some_iff, hexValue?_eq_some_iff] at found
      obtain ⟨i, first, _, ⟨j, second, _, ⟨k, third, _, ⟨l, fourth, -⟩, -⟩, -⟩, -⟩ := found
      exact extend (.digits first second third fourth) ih h
  | case3 a b c d rest missing =>
      rw [readUnits, missing] at h
      simp at h
  | case4 letter rest notCode c found ih =>
      exact extend (.letter (escaped?_eq_some_iff.mp found)) ih h
  | case5 letter rest notCode missing =>
      rw [readUnits, missing] at h
      · simp at h
      · exact notCode
  | case6 c rest noQuote noCode noEscape control =>
      rw [readUnits, if_pos control] at h
      · simp at h
      all_goals assumption
  | case7 c rest noQuote noCode noEscape visible ih =>
      by_cases escape : c = '\\'
      · cases rest with
        | cons next rest => exact (noEscape next rest escape rfl).elim
        | nil =>
            rw [readUnits.eq_4 _ _ noQuote noCode noEscape, if_neg visible] at h
            simp [readUnits, bind, Except.bind] at h
      · exact extend (.plain noQuote escape (Nat.not_lt.mp visible)) ih h
  | case8 => simp [readUnits] at h

theorem readUnits_unitsText (h : UnitsText text units) (rest : List Char) :
    readUnits (text ++ '"' :: rest) = .ok (units, rest) := by
  induction h with
  | nil => rfl
  | cons written _ ih =>
      rw [List.append_assoc, readUnits_append written, ih]
      rfl

/-! ## Characters -/

theorem high_of_isHighHalf (h : isHighHalf unit = true) : ∃ i < 0x400, unit = 0xd800 + i := by
  simp only [isHighHalf, Bool.and_eq_true, decide_eq_true_eq] at h
  exact ⟨unit - 0xd800, by omega, by omega⟩

theorem low_of_isLowHalf (h : isLowHalf unit = true) : ∃ j < 0x400, unit = 0xdc00 + j := by
  simp only [isLowHalf, Bool.and_eq_true, decide_eq_true_eq] at h
  exact ⟨unit - 0xdc00, by omega, by omega⟩

/-- No character is half of a pair. -/
theorem not_isHalf (c : Char) : isHighHalf c.toNat = false ∧ isLowHalf c.toNat = false := by
  have valid : c.toNat.isValidChar := c.valid
  unfold Nat.isValidChar at valid
  simp only [isHighHalf, isLowHalf, Bool.and_eq_false_iff, decide_eq_false_iff_not]
  omega

theorem unit_lt (h : UnitText text unit) : unit < 0x110000 := by
  have ofChar (c : Char) : c.toNat < 0x110000 := by
    have valid : c.toNat.isValidChar := c.valid
    unfold Nat.isValidChar at valid
    omega
  cases h with
  | plain _ _ _ => exact ofChar _
  | letter _ => exact ofChar _
  | digits first second third fourth =>
      have := first.1
      have := second.1
      have := third.1
      have := fourth.1
      omega

/-- A code unit that is no half of a pair is that of a character. -/
theorem isValidChar_of_noHalf (small : unit < 0x110000) (noHigh : isHighHalf unit = false)
    (noLow : isLowHalf unit = false) : unit.isValidChar := by
  simp only [isHighHalf, isLowHalf, Bool.and_eq_false_iff, decide_eq_false_iff_not] at noHigh noLow
  unfold Nat.isValidChar
  omega

theorem toNat_ofNat {code : Nat} (valid : code.isValidChar) : (Char.ofNat code).toNat = code := by
  rw [Char.ofNat, dif_pos valid]
  rfl

theorem joinUnits_of_char {unit : Nat} (noHigh : isHighHalf unit = false)
    (noLow : isLowHalf unit = false) (rest : List Nat) :
    joinUnits (unit :: rest) = (joinUnits rest).map (Char.ofNat unit :: ·) := by
  rw [joinUnits.eq_def]
  simp only [noHigh, noLow, Bool.false_eq_true, if_false]

theorem joinUnits_of_pair {i j : Nat} (hi : i < 0x400) (hj : j < 0x400) (rest : List Nat) :
    joinUnits ((0xd800 + i) :: (0xdc00 + j) :: rest) =
      (joinUnits rest).map (Char.ofNat (0x10000 + 0x400 * i + j) :: ·) := by
  have isHigh : isHighHalf (0xd800 + i) = true := by
    simp only [isHighHalf, Bool.and_eq_true, decide_eq_true_eq]
    omega
  have isLow : isLowHalf (0xdc00 + j) = true := by
    simp only [isLowHalf, Bool.and_eq_true, decide_eq_true_eq]
    omega
  have code : 0x10000 + (0xd800 + i - 0xd800) * 0x400 + (0xdc00 + j - 0xdc00) =
      0x10000 + 0x400 * i + j := by omega
  simp only [joinUnits, isHigh, isLow, if_true, code]

/-- What the code units stand for is written between the quotes. -/
theorem quotedText_of_joinUnits {content : List Char} (h : UnitsText text units)
    (joined : joinUnits units = some content) : QuotedText text content := by
  induction units using joinUnits.induct generalizing text content with
  | case1 =>
      cases h
      obtain rfl := Option.some.inj joined
      exact .nil
  | case2 high isHigh low after isLow ih =>
      obtain ⟨i, hi, rfl⟩ := high_of_isHighHalf isHigh
      obtain ⟨j, hj, rfl⟩ := low_of_isLowHalf isLow
      rw [joinUnits_of_pair hi hj, Option.map_eq_some_iff] at joined
      obtain ⟨others, joined, rfl⟩ := joined
      cases h with
      | cons first later =>
          cases later with
          | cons second later =>
              rw [← List.append_assoc]
              have valid : (0x10000 + 0x400 * i + j).isValidChar := .inr ⟨by omega, by omega⟩
              exact .cons (.pair first second hi hj (toNat_ofNat valid)) (ih later joined)
  | case3 high isHigh low after notLow => simp [joinUnits, isHigh, notLow] at joined
  | case4 high isHigh => simp [joinUnits, isHigh] at joined
  | case5 unit rest notHigh isLow =>
      rw [joinUnits.eq_def] at joined
      simp [notHigh, isLow] at joined
  | case6 unit rest notHigh notLow ih =>
      rw [Bool.not_eq_true] at notHigh notLow
      rw [joinUnits_of_char notHigh notLow, Option.map_eq_some_iff] at joined
      obtain ⟨others, joined, rfl⟩ := joined
      cases h with
      | cons first later =>
          have same := toNat_ofNat (isValidChar_of_noHalf (unit_lt first) notHigh notLow)
          exact .cons (.single (by rwa [same])) (ih later joined)

/-- What is written between quotes has code units that stand for the content. -/
theorem exists_joinUnits {content : List Char} (h : QuotedText text content) :
    ∃ units, UnitsText text units ∧ joinUnits units = some content := by
  induction h with
  | nil => exact ⟨[], .nil, rfl⟩
  | @cons text c rest content first _ ih =>
      obtain ⟨units, written, joined⟩ := ih
      cases first with
      | single unit =>
          obtain ⟨noHigh, noLow⟩ := not_isHalf c
          refine ⟨c.toNat :: units, .cons unit written, ?_⟩
          rw [joinUnits_of_char noHigh noLow, joined, Char.ofNat_toNat]
          rfl
      | @pair high low _ i j first second hi hj same =>
          refine ⟨(0xd800 + i) :: (0xdc00 + j) :: units, ?_, ?_⟩
          · rw [List.append_assoc]
            exact .cons first (.cons second written)
          · rw [joinUnits_of_pair hi hj, joined, ← same, Char.ofNat_toNat]
            rfl

/-- The code units of a text are settled by what is written. -/
theorem UnitsText.unique {units' : List Nat} (h : UnitsText text units)
    (h' : UnitsText text units') : units' = units := by
  have read := (readUnits_unitsText h []).symm.trans (readUnits_unitsText h' [])
  exact (Prod.mk.inj (Except.ok.inj read)).1.symm

theorem betweenQuotes_iff (h : UnitsText text units) {content : Option String} :
    BetweenQuotes text content ↔ (joinUnits units).map String.ofList = content := by
  constructor
  · intro quoted
    cases quoted with
    | whole written =>
        obtain ⟨units', own, joined⟩ := exists_joinUnits written
        obtain rfl := h.unique own
        simp [joined]
    | broken _ never =>
        cases joined : joinUnits units with
        | none => rfl
        | some content => exact absurd (quotedText_of_joinUnits h joined) (never content)
  · rintro rfl
    cases joined : joinUnits units with
    | none =>
        refine .broken h fun content written => ?_
        obtain ⟨units', own, found⟩ := exists_joinUnits written
        obtain rfl := h.unique own
        simp [joined] at found
    | some content => exact .whole (by simpa using quotedText_of_joinUnits h joined)

theorem BetweenQuotes.exists_unitsText {content : Option String} (h : BetweenQuotes text content) :
    ∃ units, UnitsText text units := by
  cases h with
  | whole written =>
      obtain ⟨units, own, -⟩ := exists_joinUnits written
      exact ⟨units, own⟩
  | broken own _ => exact ⟨_, own⟩

/-! ## Texts -/

theorem readText_quoted {content : Option String} (h : BetweenQuotes text content)
    (rest : List Char) : readText (text ++ '"' :: rest) = .ok (content, rest) := by
  obtain ⟨units, written⟩ := h.exists_unitsText
  simp [readText, readUnits_unitsText written, (betweenQuotes_iff written).mp h, bind, Except.bind]

/-- Whatever is read up to a closing quote is written in front of it. -/
theorem exists_betweenQuotes {content : Option String} (h : readText text = .ok (content, after)) :
    ∃ own, text = own ++ '"' :: after ∧ BetweenQuotes own content := by
  unfold readText at h
  cases read : readUnits text with
  | error error => simp [read, bind, Except.bind] at h
  | ok result =>
      obtain ⟨units, left⟩ := result
      simp only [read, bind, Except.bind, Except.ok.injEq, Prod.mk.injEq] at h
      obtain ⟨joined, rfl⟩ := h
      obtain ⟨own, rfl, written⟩ := exists_unitsText read
      exact ⟨own, rfl, (betweenQuotes_iff written).mpr joined⟩

end ApiBinding.Json

import ApiBinding.Proofs.TypeExpr.Lexer

/-! Literal values are atoms: a number is a word, and any other text stands in double quotes. -/

namespace ApiBinding.TypeText

/-! ## Numbers -/

theorem isWordChar_of_isDigit {c : Char} (h : c.isDigit = true) : isWordChar c = true := by
  have all : ∀ code ≤ 57, 48 ≤ code → isWordChar (Char.ofNat code) = true := by decide
  obtain ⟨low, high⟩ := Char.isDigit_iff_toNat.mp h
  have here := all c.toNat high low
  rwa [Char.ofNat_toNat] at here

/-- A text of which every character is a word character. -/
def WordChars (text : List Char) : Prop :=
  ∀ c ∈ text, isWordChar c = true

instance (text : List Char) : Decidable (WordChars text) :=
  List.decidableBAll _ _

theorem WordChars.append {text more : List Char} (h : WordChars text) (h' : WordChars more) :
    WordChars (text ++ more) := by
  intro c member
  rcases List.mem_append.mp member with member | member
  · exact h c member
  · exact h' c member

theorem WordChars.cons {c : Char} {text : List Char} (h : isWordChar c = true)
    (h' : WordChars text) : WordChars (c :: text) := by
  simpa [WordChars] using ⟨h, h'⟩

theorem WordChars.subset {text part : List Char} (h : WordChars text) (inside : part ⊆ text) :
    WordChars part :=
  fun c member => h c (inside member)

theorem wordChars_zeros (count : Nat) : WordChars (List.replicate count '0') := by
  intro c member
  obtain rfl := (List.mem_replicate.mp member).2
  decide

theorem wordChars_toDigits (number : Nat) : WordChars (Nat.toDigits 10 number) :=
  fun _ member => isWordChar_of_isDigit (Nat.isDigit_of_mem_toDigits (by decide) (by decide) member)

theorem wordChars_repr (number : Nat) : WordChars number.repr.toList := by
  rw [Nat.toList_repr]
  exact wordChars_toDigits number

theorem isWord_of_toList {text : String} (nonempty : text.toList ≠ [])
    (chars : WordChars text.toList) : IsWord text :=
  ⟨by simpa using nonempty, chars⟩

theorem isWord_int (number : Int) : IsWord (toString number) := by
  cases number with
  | ofNat magnitude => exact ⟨Nat.repr_ne_empty, wordChars_repr magnitude⟩
  | negSucc magnitude =>
      have same : (toString (Int.negSucc magnitude)).toList =
          '-' :: (magnitude + 1).repr.toList := by
        show ("-" ++ (magnitude + 1).repr).toList = _
        simp
      apply isWord_of_toList
      · rw [same]
        exact List.cons_ne_nil _ _
      · rw [same]
        exact (wordChars_repr _).cons (by decide)

theorem wordChars_exponentText (exponent : Int) :
    WordChars (Binary64.exponentText exponent).toList := by
  have magnitude := wordChars_repr exponent.natAbs
  unfold Binary64.exponentText
  rw [String.toList_append]
  apply WordChars.append
  · split <;> decide
  · split
    · rw [String.toList_append]
      exact WordChars.append (by decide) magnitude
    · exact magnitude

theorem isWord_decimal (number : Binary64.Decimal) : IsWord number.text := by
  have digits := wordChars_toDigits number.digits
  unfold Binary64.Decimal.text
  dsimp only
  split
  · split
    · apply isWord_of_toList
      · simp
      · simp only [String.toList_append, String.toList_ofList]
        exact WordChars.append (by decide) ((wordChars_zeros _).append digits)
    · split
      · apply isWord_of_toList
        · simp
        · rw [String.toList_ofList]
          exact (digits.subset (List.take_subset _ _)).append
            ((digits.subset (List.drop_subset _ _)).cons (by decide))
      · apply isWord_of_toList
        · simp
        · simp only [String.toList_append, String.toList_ofList]
          exact (digits.append (wordChars_zeros _)).append (by decide)
  · apply isWord_of_toList
    · simp
    · simp only [String.toList_append, String.toList_ofList]
      refine (WordChars.append (WordChars.append ?_ ?_) ?_).append (wordChars_exponentText _)
      · exact digits.subset (List.take_subset _ _)
      · split
        · exact (digits.subset (List.drop_subset _ _)).cons (by decide)
        · simp [WordChars]
      · decide

/-- A sign may stand before a word. -/
theorem isWord_signed (negative : Bool) {text : String} (h : IsWord text) :
    IsWord ((if negative then "-" else "") ++ text) := by
  apply isWord_of_toList
  · have := h.1
    simp [this]
  · rw [String.toList_append]
    apply WordChars.append
    · split <;> decide
    · exact h.2

theorem isWord_float (number : Binary64) : IsWord (number.text Json.numberNames) := by
  cases number with
  | nan =>
      decide
  | infinity negative =>
      apply isWord_signed
      decide
  | finite negative mantissa exponent =>
      apply isWord_signed
      split
      · decide
      · exact isWord_decimal _

/-! ## Literal values -/

/-- The text of an atom: a word, or a text in double quotes. -/
def IsAtomText (text : String) : Prop :=
  IsWord text ∨ ∃ content, text = Json.quote content

theorem lexesTo_atom {text : String} (h : IsAtomText text) : LexesTo text.toList [.atom text] := by
  rcases h with word | ⟨content, rfl⟩
  · exact lexesTo_word word
  · exact lexesTo_quote content

/-- A value that is no collection. -/
def IsScalar : Value → Prop
  | .list _ => False
  | .object _ => False
  | _ => True

theorem isAtomText_render {value : Value} (h : IsScalar value) :
    IsAtomText (Json.render value) := by
  cases value with
  | null => exact .inl (by decide)
  | bool flag => cases flag <;> exact .inl (by decide)
  | int number => exact .inl (isWord_int number)
  | float number => exact .inl (isWord_float number)
  | date day => exact .inr ⟨day, rfl⟩
  | text content => exact .inr ⟨content, rfl⟩
  | list _ => exact h.elim
  | object _ => exact h.elim

theorem isAtomText_of_literals {values : List Value} (h : ∀ value ∈ values, IsScalar value)
    {text : String} (member : text ∈ (values.map Json.render).eraseDups) : IsAtomText text := by
  rw [List.mem_eraseDups] at member
  obtain ⟨value, hvalue, rfl⟩ := List.mem_map.mp member
  exact isAtomText_render (h value hvalue)

end ApiBinding.TypeText

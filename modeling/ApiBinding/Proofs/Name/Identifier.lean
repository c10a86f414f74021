import ApiBinding.Name.Identifier

/-! Names are identifiers, whatever text they are made of: the last steps of making a name keep
plain characters only and guard its start, so that nothing depends on the steps before. -/

namespace ApiBinding.Name

/-! ## Plain characters -/

/-- A letter of the first 128 characters or the low line. -/
def isLetter (c : Char) : Bool :=
  ('A' ≤ c && c ≤ 'Z') || ('a' ≤ c && c ≤ 'z') || c == '_'

/-- A character that an identifier may have behind its first one. -/
def isPlain (c : Char) : Bool :=
  isLetter c || ('0' ≤ c && c ≤ '9')

/-- A letter or the low line, and then letters, digits and low lines. -/
def isIdentifier (name : String) : Bool :=
  match name.toList with
  | [] => false
  | c :: rest => isLetter c && rest.all isPlain

def isIdeograph (c : Char) : Bool :=
  '\u4e00' ≤ c && c ≤ '\u9fa5'

theorem isNameChar_eq (c : Char) : isNameChar c = (isPlain c || isIdeograph c) := by
  unfold isNameChar isPlain isLetter isIdeograph
  generalize ('0' ≤ c && c ≤ '9' : Bool) = digit
  cases digit <;> simp

theorem isPlain_of_isLetter {c : Char} (h : isLetter c = true) : isPlain c = true := by
  simp [isPlain, h]

theorem toNat_lt_of_isPlain {c : Char} (h : isPlain c = true) : c.toNat < 128 := by
  simp only [isPlain, isLetter, Bool.or_eq_true, Bool.and_eq_true, decide_eq_true_eq, beq_iff_eq,
    Char.le_def, UInt32.le_iff_toNat_le] at h
  change c.val.toNat < 128
  rcases h with ((upper | lower) | rfl) | digit
  · exact Nat.lt_of_le_of_lt upper.2 (by decide)
  · exact Nat.lt_of_le_of_lt lower.2 (by decide)
  · decide
  · exact Nat.lt_of_le_of_lt digit.2 (by decide)

/-- A plain character is one of the first 128. -/
theorem exists_code {c : Char} (plain : isPlain c = true) :
    ∃ code : Fin 128, c = Char.ofNat code :=
  ⟨⟨c.toNat, toNat_lt_of_isPlain plain⟩, (Char.ofNat_toNat c).symm⟩

/-- A plain character that is no digit is a letter. -/
theorem isLetter_of_isPlain {c : Char} (plain : isPlain c = true)
    (other : Text.isDigit c = false) : isLetter c = true := by
  have known : ∀ code : Fin 128, isPlain (Char.ofNat code) = true →
      Text.isDigit (Char.ofNat code) = false → isLetter (Char.ofNat code) = true := by
    decide +kernel
  obtain ⟨code, rfl⟩ := exists_code plain
  exact known code plain other

/-! ## Upper and lower case -/

theorem upperChar_plain {c : Char} (plain : isPlain c = true) : Text.upperChar c = [c.toUpper] := by
  have known : ∀ code : Fin 128, isPlain (Char.ofNat code) = true →
      Text.upperChar (Char.ofNat code) = [(Char.ofNat code).toUpper] := by
    decide +kernel
  obtain ⟨code, rfl⟩ := exists_code plain
  exact known code plain

/-- The case of a plain character does not decide whether it is a letter. -/
theorem toUpper_toLower_plain {c : Char} (plain : isPlain c = true) :
    isLetter c.toUpper = isLetter c ∧ isPlain c.toUpper = true ∧ isPlain c.toLower = true := by
  have known : ∀ code : Fin 128, isPlain (Char.ofNat code) = true →
      isLetter (Char.ofNat code).toUpper = isLetter (Char.ofNat code) ∧
        isPlain (Char.ofNat code).toUpper = true ∧ isPlain (Char.ofNat code).toLower = true := by
    decide +kernel
  obtain ⟨code, rfl⟩ := exists_code plain
  exact known code plain

theorem upper_plain {text : List Char} (plain : text.all isPlain = true) :
    (Text.upper text).all isPlain = true := by
  rw [List.all_eq_true] at plain ⊢
  intro d member
  obtain ⟨c, inside, raised⟩ := List.mem_flatMap.mp member
  rw [upperChar_plain (plain c inside), List.mem_singleton] at raised
  rw [raised]
  exact (toUpper_toLower_plain (plain c inside)).2.1

/-- No plain character is a sigma, so its lower case does not depend on its place. -/
theorem lowerAfter_plain {text : List Char} (plain : text.all isPlain = true)
    (before : List Char) : (Text.lowerAfter before text).all isPlain = true := by
  have known : ∀ code : Fin 128, isPlain (Char.ofNat code) = true →
      (Char.ofNat code == 'Σ') = false ∧
        Text.changeCase Text.lowerRuns Text.lowerSequences (Char.ofNat code) =
          [(Char.ofNat code).toLower] := by
    decide +kernel
  induction text generalizing before with
  | nil => rfl
  | cons c rest ih =>
      rw [List.all_cons, Bool.and_eq_true] at plain
      have lower := (toUpper_toLower_plain plain.1).2.2
      obtain ⟨code, rfl⟩ := exists_code plain.1
      obtain ⟨other, lowered⟩ := known code plain.1
      rw [Text.lowerAfter, other, if_neg Bool.false_ne_true, lowered]
      simp [lower, ih plain.2]

/-! ## Identifiers -/

theorem isIdentifier_append {start rest : String} (h : isIdentifier start = true)
    (plain : rest.toList.all isPlain = true) : isIdentifier (start ++ rest) = true := by
  unfold isIdentifier at h ⊢
  rw [String.toList_append]
  cases text : start.toList with
  | nil => simp [text] at h
  | cons c others =>
      simp only [text, Bool.and_eq_true] at h
      simp [h.1, h.2, plain]

theorem isIdentifier_upperFirst {name : String} (h : isIdentifier name = true) :
    isIdentifier (upperFirst name) = true := by
  unfold isIdentifier at h
  unfold isIdentifier upperFirst
  cases text : name.toList with
  | nil => simp [text] at h
  | cons c rest =>
      simp only [text, Bool.and_eq_true] at h
      have plain := isPlain_of_isLetter h.1
      have letter := (toUpper_toLower_plain plain).1.trans h.1
      simp [Text.upperFirst, upperChar_plain plain, letter, h.2]

/-- A lexicon that spells every ideograph, and writes plain letters for what it spells. -/
structure Lexicon.SpellsPlainly (lexicon : Lexicon) : Prop where
  complete : ∀ c, isIdeograph c = true → lexicon.reading? c ≠ none
  readings : ∀ c letters, lexicon.reading? c = some letters → letters.toList.all isPlain = true
  phrases : ∀ phrase letters, (phrase, letters) ∈ lexicon.phrases →
    letters.toList.all isPlain = true

variable {lexicon : Lexicon} {options : Options}

/-- A fold that keeps its state or takes the entry ends in the first state or in an entry. -/
theorem mem_of_foldl_choice {α : Type} {pick : Option α → α → Option α}
    (choice : ∀ best entry, pick best entry = best ∨ pick best entry = some entry)
    {entries : List α} {best : Option α} {found : α}
    (h : entries.foldl pick best = some found) : best = some found ∨ found ∈ entries := by
  induction entries generalizing best with
  | nil => exact .inl h
  | cons entry rest ih =>
      rcases ih h with taken | member
      · rcases choice best entry with kept | new
        · exact .inl (kept ▸ taken)
        · obtain rfl := Option.some.inj (new.symm.trans taken)
          exact .inr List.mem_cons_self
      · exact .inr (List.mem_cons_of_mem entry member)

theorem Lexicon.mem_of_phraseAt? {text : List Char} {entry : List Char × String}
    (h : lexicon.phraseAt? text = some entry) : entry ∈ lexicon.phrases := by
  unfold phraseAt? at h
  have chosen := mem_of_foldl_choice (by
    intro best entry
    split
    · split
      · exact .inr rfl
      · exact .inl rfl
    · exact .inr rfl) h
  rcases chosen with start | member
  · simp at start
  · exact (List.mem_filter.mp member).1

/-- The induction is on the text: a character is spelled, covered by a phrase, or plain. -/
theorem Lexicon.SpellsPlainly.spellFrom (spells : lexicon.SpellsPlainly) {text : List Char}
    (kept : text.all isNameChar = true) (skip : Nat) :
    (lexicon.spellFrom skip text).all isPlain = true := by
  induction text generalizing skip with
  | nil => rfl
  | cons c rest ih =>
      rw [List.all_cons, Bool.and_eq_true] at kept
      have later := ih kept.2
      cases skip with
      | succ skip => exact later skip
      | zero =>
          simp only [Lexicon.spellFrom]
          split
          · rename_i phrase letters found
            have spelled := spells.phrases phrase letters (mem_of_phraseAt? found)
            simp [spelled, later]
          · split
            · rename_i letters known
              simp [spells.readings c letters known, later]
            · rename_i unknown
              have plain : isPlain c = true := by
                have other : ¬ isIdeograph c = true := fun ideograph =>
                  spells.complete c ideograph unknown
                simpa [isNameChar_eq, other] using kept.1
              simp [plain, later]

/-- What comes out of the last steps is an identifier, whatever goes in. -/
theorem isIdentifier_finish (spells : lexicon.SpellsPlainly)
    (guarded : isIdentifier options.numericPrefix = true) (text : List Char) :
    isIdentifier (finish lexicon options text) = true := by
  have plain : (lexicon.spell (text.filter isNameChar)).all isPlain = true :=
    spells.spellFrom (by simp [List.all_filter]) 0
  unfold finish
  generalize lexicon.spell (text.filter isNameChar) = name at plain
  dsimp only
  split
  · exact isIdentifier_append guarded (by simpa using plain)
  · rename_i fits
    unfold isIdentifier
    cases name with
    | nil => simp [needsPrefix] at fits
    | cons c rest =>
        rw [List.all_cons, Bool.and_eq_true] at plain
        have start : Text.isDigit c = false := by
          unfold needsPrefix at fits
          split at fits
          · simp_all
          · simp_all
          · simp_all
        simp [isLetter_of_isPlain plain.1 start, plain.2]

/-! ## Names of records and operations -/

/-- The prefixes of the options begin an identifier. -/
structure GuardsNames (options : Options) : Prop where
  reserved : isIdentifier options.reservedPrefix = true
  numeric : isIdentifier options.numericPrefix = true

theorem guardsNames_default : GuardsNames {} :=
  ⟨by decide, by decide⟩

theorem plain_of_isReserved {word : String} (h : isReserved word = true) :
    word.toList.all isPlain = true := by
  have known : ∀ word ∈ reservedWords, word.toList.all isPlain = true := by decide +kernel
  exact known word (List.contains_iff_mem.mp h)

/-- The record name of a definition is an identifier, whatever the key of the definition. -/
theorem isIdentifier_ofDefinition (spells : lexicon.SpellsPlainly) (guards : GuardsNames options)
    (raw : String) : isIdentifier (ofDefinition lexicon options raw) = true := by
  unfold ofDefinition
  split
  · rename_i reserved
    exact isIdentifier_append guards.reserved (plain_of_isReserved reserved)
  · exact isIdentifier_finish spells guards.numeric _

/-- No reserved word has the method mark in it. -/
theorem isReserved_marked (name : String) (method : List Char) :
    isReserved (name ++ String.ofList (methodMark ++ method)) = false := by
  have unmarked : ∀ word ∈ reservedWords, 'U' ∉ word.toList := by decide +kernel
  rw [isReserved, List.contains_eq_mem, decide_eq_false_iff_not]
  intro reserved
  refine unmarked _ reserved ?_
  simp [methodMark]

/-- The name of an operation is an identifier and no reserved word, whatever its identifier in
the document and its path. -/
theorem isIdentifier_ofOperation (spells : lexicon.SpellsPlainly) (guards : GuardsNames options)
    (identifier : Option String) {method : String} (plain : method.toList.all isPlain = true)
    (path : String) :
    isIdentifier (ofOperation lexicon options identifier method path) = true ∧
      isReserved (ofOperation lexicon options identifier method path) = false := by
  obtain ⟨text, named⟩ : ∃ text, ofOperation lexicon options identifier method path =
      if isReserved (finish lexicon options text) then
        finish lexicon options text ++ String.ofList (methodMark ++ Text.upper method.toList)
      else finish lexicon options text := ⟨_, rfl⟩
  have usable := isIdentifier_finish spells guards.numeric text
  rw [named]
  split
  · refine ⟨isIdentifier_append usable ?_, isReserved_marked _ _⟩
    have marked : methodMark.all isPlain = true := by decide
    simp [marked, upper_plain plain]
  · rename_i free
    exact ⟨usable, by simpa using free⟩

end ApiBinding.Name

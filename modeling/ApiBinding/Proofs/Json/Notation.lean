import ApiBinding.Proofs.Json.Collection
import ApiBinding.Proofs.Json.Number
import ApiBinding.Proofs.Json.Quoted
import ApiBinding.Proofs.Outcome

/-! The notation for data. The rules say which texts stand for a value, with collections nested no
deeper than there is room. A text is read as a value if and only if it stands for this value. -/

namespace ApiBinding.Json

/-! ## Rules -/

/-- Blanks and line breaks. -/
def IsGap (text : List Char) : Prop :=
  ∀ c ∈ text, c ∈ [' ', '\t', '\n', '\r']

/-- The words for numbers that have no digits. -/
def specialNumbers : List (String × Binary64) :=
  [("NaN", .nan), ("Infinity", .infinity false), ("-Infinity", .infinity true)]

/-- A key in quotes, with the colon behind it. -/
inductive KeyText : List Char → Option String → Prop where
  | mk {text name gap gap'} : BetweenQuotes text name → IsGap gap → IsGap gap' →
      KeyText ('"' :: (text ++ '"' :: (gap ++ ':' :: gap'))) name

/-- What a stretch of text stands for: a value, unless half a character stands alone in it, or what
is between the brackets of a collection that is not empty. -/
inductive Content where
  | value (value? : Option Value)
  | items (items : List (Option Value))
  | entries (entries : List (Option String × Option Value))

/-- What a text stands for if there is room for so many collections inside each other. -/
inductive Denotes : Nat → List Char → Content → Prop where
  | null {room} : Denotes room "null".toList (.value (some .null))
  | bool {room} (flag : Bool) : Denotes room (toString flag).toList (.value (some (.bool flag)))
  | special {room name number} : (name, number) ∈ specialNumbers →
      Denotes room name.toList (.value (some (.float number)))
  | positive {room text value} : MagnitudeText false text value →
      Denotes room text (.value (some value))
  | negative {room text value} : MagnitudeText true text value →
      Denotes room ('-' :: text) (.value (some value))
  | text {room text content} : BetweenQuotes text content →
      Denotes room ('"' :: text ++ ['"']) (.value (content.map .text))
  | emptyList {room gap} : IsGap gap →
      Denotes (room + 1) ('[' :: gap ++ [']']) (.value (some (.list [])))
  | list {room gap text items value} : IsGap gap → Denotes room text (.items items) →
      ListOf items value → Denotes (room + 1) ('[' :: gap ++ text ++ [']']) (.value value)
  | emptyObject {room gap} : IsGap gap →
      Denotes (room + 1) ('\x7b' :: gap ++ ['\x7d']) (.value (some (.object [])))
  | object {room gap text entries value} : IsGap gap → Denotes room text (.entries entries) →
      MappingOf entries value →
      Denotes (room + 1) ('\x7b' :: gap ++ text ++ ['\x7d']) (.value value)
  | lastItem {room text value gap} : Denotes room text (.value value) → IsGap gap →
      Denotes room (text ++ gap) (.items [value])
  | item {room text value gap gap' rest items} : Denotes room text (.value value) → IsGap gap →
      IsGap gap' → Denotes room rest (.items items) →
      Denotes room (text ++ (gap ++ ',' :: (gap' ++ rest))) (.items (value :: items))
  | lastEntry {room key name text value gap} : KeyText key name → Denotes room text (.value value) →
      IsGap gap → Denotes room (key ++ (text ++ gap)) (.entries [(name, value)])
  | entry {room key name text value gap gap' rest entries} : KeyText key name →
      Denotes room text (.value value) → IsGap gap → IsGap gap' →
      Denotes room rest (.entries entries) →
      Denotes room (key ++ (text ++ (gap ++ ',' :: (gap' ++ rest))))
        (.entries ((name, value) :: entries))

/-- A whole text stands for a value, or for none if half a character stands alone in it, with gaps
around it. -/
def StandsFor (room : Nat) (text : String) (value? : Option Value) : Prop :=
  ∃ gap own gap', text.toList = gap ++ (own ++ gap') ∧ IsGap gap ∧ IsGap gap' ∧
    Denotes room own (.value value?)

/-! ## Gaps -/

variable {text rest gap : List Char} {room : Nat} {value : Value} {value? : Option Value}

theorem isGap_iff {c : Char} : isGap c = true ↔ c ∈ [' ', '\t', '\n', '\r'] := by
  simp [isGap, or_assoc]

theorem exists_gap (text : List Char) : ∃ gap, text = gap ++ skipGap text ∧ IsGap gap :=
  ⟨text.takeWhile isGap, List.takeWhile_append_dropWhile.symm, fun c member =>
    isGap_iff.mp (List.all_eq_true.mp List.all_takeWhile c member)⟩

theorem skipGap_append (h : IsGap gap) (solid : ∀ c ∈ rest.head?, isGap c = false) :
    skipGap (gap ++ rest) = rest := by
  rw [skipGap, List.dropWhile_append_of_pos fun c member => isGap_iff.mpr (h c member)]
  cases rest with
  | nil => rfl
  | cons c rest => exact List.dropWhile_cons_of_neg (by simp [solid c rfl])

theorem skipGap_gap (h : IsGap gap) : skipGap gap = [] := by
  simpa using @skipGap_append [] _ h (by simp)

/-! ## Words and numbers -/

/-- A word or a number is read as the value that it stands for, and what follows it is left. -/
theorem exists_denotes_word (h : readWord text = .ok (value, rest)) (room : Nat) :
    ∃ own, text = own ++ rest ∧ Denotes room own (.value (some value)) := by
  unfold readWord at h
  dsimp only at h
  split at h
  · rename_i result found
    obtain rfl := Except.ok.inj h
    obtain ⟨entry, member, begins⟩ := List.exists_of_findSome?_eq_some found
    obtain ⟨left, dropped, same⟩ := Option.map_eq_some_iff.mp begins
    obtain ⟨rfl, rfl⟩ := Prod.mk.inj same
    refine ⟨entry.1.toList, Text.dropStart?_eq_some_iff.mp dropped, ?_⟩
    simp only [words, List.mem_cons, List.not_mem_nil, or_false] at member
    rcases member with rfl | rfl | rfl | rfl | rfl | rfl
    · exact .null
    · exact .bool true
    · exact .bool false
    all_goals exact .special (by decide)
  · split at h
    · obtain ⟨own, rfl, number⟩ := exists_magnitudeText h
      exact ⟨'-' :: own, rfl, .negative number⟩
    · obtain ⟨own, rfl, number⟩ := exists_magnitudeText h
      exact ⟨own, rfl, .positive number⟩

section digit

variable {first : Char} (digit : first.isDigit = true)
include digit

theorem ne_of_isDigit {letter : Char} (h : letter.isDigit = false) : letter ≠ first := by
  rintro rfl
  simp [digit] at h

/-- A digit begins no word. -/
theorem readWord_digit (rest : List Char) :
    readWord (first :: rest) = readMagnitude false (first :: rest) := by
  have other (letter : Char) : letter.isDigit = false → letter ≠ first := ne_of_isDigit digit
  unfold readWord
  simp [words, Text.dropStart?, other]
  split
  · rename_i same
    exact (other '-' (by decide) (List.cons.inj same).1.symm).elim
  · rfl

theorem readWord_minus (rest : List Char) :
    readWord ('-' :: first :: rest) = readMagnitude true (first :: rest) := by
  have other (letter : Char) : letter.isDigit = false → letter ≠ first := ne_of_isDigit digit
  simp [readWord, words, Text.dropStart?, other]

end digit

/-! ## The first character -/

/-- The characters that a value begins with, digits apart. -/
def valueStarts : List Char :=
  ['"', '[', '\x7b', '-', 'n', 't', 'f', 'N', 'I']

def StartsValue (c : Char) : Prop :=
  c.isDigit = true ∨ c ∈ valueStarts

theorem MagnitudeText.start {negative : Bool} (h : MagnitudeText negative text value) :
    ∃ first others, text = first :: others ∧ first.isDigit = true := by
  have front {whole rest : List Char} (written : WholeText whole) :
      ∃ first others, whole ++ rest = first :: others ∧ first.isDigit = true := by
    obtain ⟨first, others, rfl⟩ := List.exists_cons_of_ne_nil written.nonempty
    exact ⟨first, others ++ rest, rfl, written.digits first List.mem_cons_self⟩
  cases h with
  | int written _ => simpa using @front _ [] written
  | float written _ _ _ =>
      rw [List.append_assoc]
      exact front written

theorem Denotes.start {content : Content} (h : Denotes room text content) :
    ∃ first others, text = first :: others ∧ StartsValue first := by
  have extend {text : List Char} (rest : List Char)
      (ih : ∃ first others, text = first :: others ∧ StartsValue first) :
      ∃ first others, text ++ rest = first :: others ∧ StartsValue first := by
    obtain ⟨first, others, rfl, starts⟩ := ih
    exact ⟨first, others ++ rest, rfl, starts⟩
  induction h with
  | null => exact ⟨'n', _, rfl, .inr (by decide)⟩
  | bool flag =>
      cases flag
      · exact ⟨'f', _, rfl, .inr (by decide)⟩
      · exact ⟨'t', _, rfl, .inr (by decide)⟩
  | special member =>
      simp only [specialNumbers, List.mem_cons, List.not_mem_nil, or_false, Prod.mk.injEq] at member
      rcases member with ⟨rfl, -⟩ | ⟨rfl, -⟩ | ⟨rfl, -⟩
      · exact ⟨'N', _, rfl, .inr (by decide)⟩
      · exact ⟨'I', _, rfl, .inr (by decide)⟩
      · exact ⟨'-', _, rfl, .inr (by decide)⟩
  | positive number =>
      obtain ⟨first, others, rfl, digit⟩ := number.start
      exact ⟨first, others, rfl, .inl digit⟩
  | negative _ => exact ⟨'-', _, rfl, .inr (by decide)⟩
  | text _ => exact ⟨'"', _, rfl, .inr (by decide)⟩
  | emptyList _ => exact ⟨'[', _, rfl, .inr (by decide)⟩
  | list _ _ _ _ => exact ⟨'[', _, rfl, .inr (by decide)⟩
  | emptyObject _ => exact ⟨'\x7b', _, rfl, .inr (by decide)⟩
  | object _ _ _ _ => exact ⟨'\x7b', _, rfl, .inr (by decide)⟩
  | lastItem _ _ ih => exact extend _ ih
  | item _ _ _ _ ih _ => exact extend _ ih
  | lastEntry keyText _ _ _ =>
      cases keyText
      exact ⟨'"', _, rfl, .inr (by decide)⟩
  | entry keyText _ _ _ _ _ _ =>
      cases keyText
      exact ⟨'"', _, rfl, .inr (by decide)⟩

/-! ## What is read -/

/-- What a reader takes from the front of a text stands for its result. -/
structure ReadsDenoted (fuel : Nat) : Prop where
  value : ∀ {room text value rest}, readValue fuel room text = .ok (value, rest) →
    ∃ own, text = own ++ rest ∧ Denotes room own (.value value)
  items : ∀ {room text items rest}, readItems fuel room text = .ok (items, rest) →
    ∃ own, text = own ++ ']' :: rest ∧ Denotes room own (.items items)
  entries : ∀ {room text entries rest}, readEntries fuel room text = .ok (entries, rest) →
    ∃ own, text = own ++ '\x7d' :: rest ∧ Denotes room own (.entries entries)

theorem enter_eq_ok_iff {inside : Nat} : enter room = .ok inside ↔ room = inside + 1 := by
  cases room <;> simp [enter]

variable {fuel : Nat}

theorem ReadsDenoted.readValue (h : ReadsDenoted fuel)
    (read : readValue (fuel + 1) room text = .ok (value?, rest)) :
    ∃ own, text = own ++ rest ∧ Denotes room own (.value value?) := by
  rw [Json.readValue.eq_def] at read
  dsimp only at read
  split at read
  · obtain ⟨⟨content, after⟩, quoted, same⟩ := bind_eq_ok_iff.mp read
    obtain ⟨rfl, rfl⟩ := Prod.mk.inj (Except.ok.inj same)
    obtain ⟨own, rfl, written⟩ := exists_betweenQuotes quoted
    exact ⟨_, by simp, .text written⟩
  · rename_i text
    obtain ⟨inside, entered, collected⟩ := bind_eq_ok_iff.mp read
    obtain rfl := enter_eq_ok_iff.mp entered
    obtain ⟨gap, front, isGap⟩ := exists_gap text
    split at collected
    · rename_i after closing
      obtain ⟨rfl, rfl⟩ := Prod.mk.inj (Except.ok.inj collected)
      rw [closing] at front
      exact ⟨_, by simp [front], .emptyList isGap⟩
    · obtain ⟨⟨items, after⟩, gathered, same⟩ := bind_eq_ok_iff.mp collected
      obtain ⟨whole, rfl⟩ := Prod.mk.inj (Except.ok.inj same)
      obtain ⟨own, closing, denotes⟩ := h.items gathered
      rw [closing] at front
      exact ⟨_, by simp [front], .list isGap denotes (listOf_iff.mpr whole)⟩
  · rename_i text
    obtain ⟨inside, entered, collected⟩ := bind_eq_ok_iff.mp read
    obtain rfl := enter_eq_ok_iff.mp entered
    obtain ⟨gap, front, isGap⟩ := exists_gap text
    split at collected
    · rename_i after closing
      obtain ⟨rfl, rfl⟩ := Prod.mk.inj (Except.ok.inj collected)
      rw [closing] at front
      exact ⟨_, by simp [front], .emptyObject isGap⟩
    · obtain ⟨⟨entries, after⟩, gathered, same⟩ := bind_eq_ok_iff.mp collected
      obtain ⟨whole, rfl⟩ := Prod.mk.inj (Except.ok.inj same)
      obtain ⟨own, closing, denotes⟩ := h.entries gathered
      rw [closing] at front
      exact ⟨_, by simp [front], .object isGap denotes (mappingOf_iff.mpr whole)⟩
  · obtain ⟨⟨value, after⟩, word, same⟩ := bind_eq_ok_iff.mp read
    obtain ⟨rfl, rfl⟩ := Prod.mk.inj (Except.ok.inj same)
    exact exists_denotes_word word room

theorem ReadsDenoted.readItems (h : ReadsDenoted fuel) {items : List (Option Value)}
    (read : readItems (fuel + 1) room text = .ok (items, rest)) :
    ∃ own, text = own ++ ']' :: rest ∧ Denotes room own (.items items) := by
  rw [Json.readItems.eq_def] at read
  obtain ⟨⟨value, after⟩, first, later⟩ := bind_eq_ok_iff.mp read
  obtain ⟨own, rfl, denotes⟩ := h.value first
  obtain ⟨gap, front, isGap⟩ := exists_gap after
  dsimp only at later
  split at later
  · rename_i behind comma
    obtain ⟨⟨items, last⟩, others, same⟩ := bind_eq_ok_iff.mp later
    obtain ⟨rfl, rfl⟩ := Prod.mk.inj (Except.ok.inj same)
    obtain ⟨gap', front', isGap'⟩ := exists_gap behind
    obtain ⟨own', closing, denotes'⟩ := h.items others
    rw [comma, front', closing] at front
    exact ⟨_, by simp [front], .item denotes isGap isGap' denotes'⟩
  · rename_i behind closing
    obtain ⟨rfl, rfl⟩ := Prod.mk.inj (Except.ok.inj later)
    rw [closing] at front
    exact ⟨_, by simp [front], .lastItem denotes isGap⟩
  · simp at later

/-- What stands in front of the value of an entry. -/
theorem exists_keyText {name : Option String} (h : readKey text = .ok (name, rest)) :
    ∃ own, text = own ++ rest ∧ KeyText own name := by
  unfold readKey at h
  split at h
  · obtain ⟨⟨own, behind⟩, quoted, colon⟩ := bind_eq_ok_iff.mp h
    obtain ⟨key, rfl, written⟩ := exists_betweenQuotes quoted
    obtain ⟨gap, front, isGap⟩ := exists_gap behind
    dsimp only at colon
    split at colon
    · rename_i value mark
      obtain ⟨rfl, rfl⟩ := Prod.mk.inj (Except.ok.inj colon)
      obtain ⟨gap', front', isGap'⟩ := exists_gap value
      rw [mark] at front
      refine ⟨_, ?_, .mk written isGap isGap'⟩
      simp [← front', ← front]
    · simp at colon
  · simp at h

theorem ReadsDenoted.readEntries (h : ReadsDenoted fuel)
    {entries : List (Option String × Option Value)}
    (read : readEntries (fuel + 1) room text = .ok (entries, rest)) :
    ∃ own, text = own ++ '\x7d' :: rest ∧ Denotes room own (.entries entries) := by
  rw [Json.readEntries.eq_def] at read
  obtain ⟨⟨name, valueText⟩, keyed, valued⟩ := bind_eq_ok_iff.mp read
  obtain ⟨key, rfl, keyText⟩ := exists_keyText keyed
  obtain ⟨⟨value, after⟩, first, later⟩ := bind_eq_ok_iff.mp valued
  obtain ⟨own, rfl, denotes⟩ := h.value first
  obtain ⟨gap, front, isGap⟩ := exists_gap after
  dsimp only at later
  split at later
  · rename_i behind comma
    obtain ⟨⟨entries, last⟩, others, same⟩ := bind_eq_ok_iff.mp later
    obtain ⟨rfl, rfl⟩ := Prod.mk.inj (Except.ok.inj same)
    obtain ⟨gap', front', isGap'⟩ := exists_gap behind
    obtain ⟨own', closing, denotes'⟩ := h.entries others
    rw [comma, front', closing] at front
    exact ⟨_, by simp [front], .entry keyText denotes isGap isGap' denotes'⟩
  · rename_i behind closing
    obtain ⟨rfl, rfl⟩ := Prod.mk.inj (Except.ok.inj later)
    rw [closing] at front
    exact ⟨_, by simp [front], .lastEntry keyText denotes isGap⟩
  · simp at later

/-- Each of the three readers counts on the two others with less fuel. -/
theorem readsDenoted (fuel : Nat) : ReadsDenoted fuel := by
  induction fuel with
  | zero => exact ⟨by simp [readValue], by simp [readItems], by simp [readEntries]⟩
  | succ fuel ih => exact ⟨ih.readValue, ih.readItems, ih.readEntries⟩

/-! ## What stands for a value is read -/

theorem readValue_word {first : Char} {others : List Char}
    (plain : first ∉ ['"', '[', '\x7b']) :
    readValue (fuel + 1) room (first :: others) =
      (readWord (first :: others)).map fun (value, after) => (some value, after) := by
  simp only [List.mem_cons, List.not_mem_nil, or_false, not_or] at plain
  rw [readValue]
  · cases readWord (first :: others) <;> rfl
  all_goals simp [plain]

/-- How what a text stands for is read from it, given enough fuel. A value may have any text behind
it that does not continue a number; the inside of a collection has its bracket. -/
def Content.ReadFrom (room : Nat) (text : List Char) : Content → Prop
  | .value own => ∀ fuel rest, 2 * text.length ≤ fuel → EndsNumber rest →
    readValue fuel room (text ++ rest) = .ok (own, rest)
  | .items all => ∀ fuel rest, 2 * text.length < fuel →
    readItems fuel room (text ++ ']' :: rest) = .ok (all, rest)
  | .entries all => ∀ fuel rest, 2 * text.length < fuel →
    readEntries fuel room (text ++ '\x7d' :: rest) = .ok (all, rest)

/-- A text without quotes and brackets is read as a word. -/
theorem readFrom_word {first : Char} {others : List Char} (plain : first ∉ ['"', '[', '\x7b'])
    (word : ∀ rest, EndsNumber rest →
      readWord (first :: others ++ rest) = .ok (value, rest)) :
    (Content.value (some value)).ReadFrom room (first :: others) := by
  intro fuel rest enough ends
  obtain ⟨fuel, rfl⟩ : ∃ less, fuel = less + 1 := ⟨fuel - 1, by simp at enough; omega⟩
  have found := word rest ends
  rw [List.cons_append] at found ⊢
  rw [readValue_word plain, found]
  rfl

theorem readFrom_positive (h : MagnitudeText false text value) :
    (Content.value (some value)).ReadFrom room text := by
  obtain ⟨first, others, rfl, digit⟩ := h.start
  refine readFrom_word ?_ fun rest ends => ?_
  · intro member
    simp only [List.mem_cons, List.not_mem_nil, or_false] at member
    rcases member with rfl | rfl | rfl <;> exact absurd digit (by decide)
  · rw [List.cons_append, readWord_digit digit]
    exact readMagnitude_append h ends

theorem readFrom_negative (h : MagnitudeText true text value) :
    (Content.value (some value)).ReadFrom room ('-' :: text) := by
  refine readFrom_word (by decide) fun rest ends => ?_
  obtain ⟨first, others, rfl, digit⟩ := h.start
  rw [List.cons_append, List.cons_append, readWord_minus digit]
  exact readMagnitude_append h ends

/-- No gap and no closing bracket is the first character of a value or an item. -/
theorem StartsValue.solid {c : Char} (h : StartsValue c) :
    isGap c = false ∧ c ≠ ']' ∧ c ≠ '\x7d' := by
  have apart : ∀ c ∈ valueStarts, isGap c = false ∧ c ≠ ']' ∧ c ≠ '\x7d' := by
    simp [valueStarts, isGap]
  rcases h with digit | member
  · have other (letter : Char) (h : letter.isDigit = false) : c ≠ letter := by
      rintro rfl
      simp [h] at digit
    refine ⟨?_, other _ (by decide), other _ (by decide)⟩
    rw [← Bool.not_eq_true, isGap_iff]
    intro gap
    simp only [List.mem_cons, List.not_mem_nil, or_false] at gap
    rcases gap with rfl | rfl | rfl | rfl <;> exact absurd digit (by decide)
  · exact apart c member

theorem Denotes.solid {content : Content} (h : Denotes room text content) (rest : List Char) :
    ∀ c ∈ (text ++ rest).head?, isGap c = false := by
  obtain ⟨first, others, rfl, starts⟩ := h.start
  simpa using starts.solid.1

theorem Denotes.skipGap {content : Content} (h : Denotes room text content) {gap : List Char}
    (isGap : IsGap gap) (rest : List Char) : skipGap (gap ++ (text ++ rest)) = text ++ rest :=
  skipGap_append isGap (h.solid rest)

/-- Neither a gap nor a mark of a collection continues a number. -/
theorem endsNumber_of_head
    (h : ∀ c ∈ rest.head?, c ∈ [' ', '\t', '\n', '\r', ',', ']', '\x7d']) : EndsNumber rest := by
  have apart : ∀ c ∈ [' ', '\t', '\n', '\r', ',', ']', '\x7d'],
      c.isDigit = false ∧ c ∉ ['.', 'e', 'E'] := by
    simp [Char.isDigit]
  exact fun c member => apart c (h c member)

theorem endsNumber_gap (h : IsGap gap) : EndsNumber gap := by
  refine endsNumber_of_head fun c member => ?_
  exact List.mem_append_left [',', ']', '\x7d'] (h c (List.mem_of_mem_head? member))

theorem endsNumber_marked (h : IsGap gap) {mark : Char} (marked : mark ∈ [',', ']', '\x7d'])
    (rest : List Char) : EndsNumber (gap ++ mark :: rest) := by
  refine endsNumber_of_head fun c member => ?_
  cases gap with
  | nil =>
      obtain rfl : mark = c := by simpa using member
      exact List.mem_append_right [' ', '\t', '\n', '\r'] marked
  | cons first others =>
      obtain rfl : first = c := by simpa using member
      exact List.mem_append_left [',', ']', '\x7d'] (h first List.mem_cons_self)

theorem readKey_append {name : Option String} (h : KeyText text name)
    (solid : ∀ c ∈ rest.head?, isGap c = false) : readKey (text ++ rest) = .ok (name, rest) := by
  cases h with
  | mk quoted isGap isGap' =>
      have colon (behind : List Char) : skipGap (_ ++ ':' :: behind) = ':' :: behind :=
        skipGap_append isGap (by simp [Json.isGap])
      simp [readKey, readText_quoted quoted, bind, Except.bind, colon, skipGap_append isGap' solid]

theorem readValue_list {items : List (Option Value)} (h : Denotes room text (.items items))
    (isGap : IsGap gap) (whole : ListOf items value?)
    (gathered : readItems fuel room (text ++ ']' :: rest) = .ok (items, rest)) :
    readValue (fuel + 1) (room + 1) ('[' :: (gap ++ (text ++ ']' :: rest))) =
      .ok (value?, rest) := by
  have front := h.skipGap isGap (']' :: rest)
  obtain ⟨first, others, rfl, starts⟩ := h.start
  simp only [readValue, enter, bind, Except.bind, front]
  split
  · rename_i same
    exact absurd (List.cons.inj same).1 starts.solid.2.1
  · rw [gathered, ← listOf_iff.mp whole]

theorem readValue_object {entries : List (Option String × Option Value)}
    (h : Denotes room text (.entries entries)) (isGap : IsGap gap)
    (whole : MappingOf entries value?)
    (gathered : readEntries fuel room (text ++ '\x7d' :: rest) = .ok (entries, rest)) :
    readValue (fuel + 1) (room + 1) ('\x7b' :: (gap ++ (text ++ '\x7d' :: rest))) =
      .ok (value?, rest) := by
  have front := h.skipGap isGap ('\x7d' :: rest)
  obtain ⟨first, others, rfl, starts⟩ := h.start
  simp only [readValue, enter, bind, Except.bind, front]
  split
  · rename_i same
    exact absurd (List.cons.inj same).1 starts.solid.2.2
  · rw [gathered, ← mappingOf_iff.mp whole]

theorem readValue_empty (isGap : IsGap gap) (rest : List Char) :
    readValue (fuel + 1) (room + 1) ('[' :: (gap ++ ']' :: rest)) = .ok (some (.list []), rest) ∧
      readValue (fuel + 1) (room + 1) ('\x7b' :: (gap ++ '\x7d' :: rest)) =
        .ok (some (.object []), rest) := by
  have closing (mark : Char) (h : Json.isGap mark = false) :
      skipGap (gap ++ mark :: rest) = mark :: rest := skipGap_append isGap (by simpa using h)
  constructor
  · simp [readValue, enter, bind, Except.bind, closing ']' (by decide)]
  · simp [readValue, enter, bind, Except.bind, closing '\x7d' (by decide)]

theorem fuel_pos {first : Char} {others : List Char}
    (enough : 2 * (first :: others).length ≤ fuel) : 0 < fuel := by
  rw [List.length_cons] at enough
  omega

/-- A value of a collection and the mark behind it. -/
theorem readFrom_marked (ih : (Content.value value?).ReadFrom room text) (isGap : IsGap gap)
    (enough : 2 * text.length ≤ fuel) {mark : Char} (marked : mark ∈ [',', ']', '\x7d'])
    (rest : List Char) :
    readValue fuel room (text ++ (gap ++ mark :: rest)) = .ok (value?, gap ++ mark :: rest) ∧
      skipGap (gap ++ mark :: rest) = mark :: rest := by
  refine ⟨ih fuel _ enough (endsNumber_marked isGap marked rest), skipGap_append isGap ?_⟩
  have solid : ∀ mark ∈ [',', ']', '\x7d'], Json.isGap mark = false := by simp [Json.isGap]
  simpa using solid mark marked

/-- The induction is on the rules. -/
theorem Denotes.readFrom {content : Content} (h : Denotes room text content) :
    content.ReadFrom room text := by
  induction h with
  | null => exact readFrom_word (by decide) fun rest _ => rfl
  | bool flag => cases flag <;> exact readFrom_word (by decide) fun rest _ => rfl
  | special member =>
      simp only [specialNumbers, List.mem_cons, List.not_mem_nil, or_false, Prod.mk.injEq] at member
      rcases member with ⟨rfl, rfl⟩ | ⟨rfl, rfl⟩ | ⟨rfl, rfl⟩
      all_goals exact readFrom_word (by decide) fun rest _ => rfl
  | positive number => exact readFrom_positive number
  | negative number => exact readFrom_negative number
  | text quoted =>
      intro fuel rest enough _
      obtain ⟨fuel, rfl⟩ := Nat.exists_eq_add_one.mpr (fuel_pos enough)
      simp [readValue, readText_quoted quoted, bind, Except.bind]
  | emptyList isGap =>
      intro fuel rest enough _
      obtain ⟨fuel, rfl⟩ := Nat.exists_eq_add_one.mpr (fuel_pos enough)
      simpa using (readValue_empty isGap rest).1
  | list isGap inner whole ih =>
      intro fuel rest enough _
      obtain ⟨fuel, rfl⟩ := Nat.exists_eq_add_one.mpr (fuel_pos enough)
      simp only [List.length_cons, List.length_append, List.length_nil] at enough
      simpa using readValue_list inner isGap whole (ih fuel rest (by omega))
  | emptyObject isGap =>
      intro fuel rest enough _
      obtain ⟨fuel, rfl⟩ := Nat.exists_eq_add_one.mpr (fuel_pos enough)
      simpa using (readValue_empty isGap rest).2
  | object isGap inner whole ih =>
      intro fuel rest enough _
      obtain ⟨fuel, rfl⟩ := Nat.exists_eq_add_one.mpr (fuel_pos enough)
      simp only [List.length_cons, List.length_append, List.length_nil] at enough
      simpa using readValue_object inner isGap whole (ih fuel rest (by omega))
  | @lastItem room text value gap _ isGap ih =>
      intro fuel rest enough
      obtain ⟨fuel, rfl⟩ := Nat.exists_eq_add_one.mpr (Nat.zero_lt_of_lt enough)
      rw [List.length_append] at enough
      have short : 2 * text.length ≤ fuel := by omega
      have marked : ']' ∈ [',', ']', '\x7d'] := by decide
      obtain ⟨first, closing⟩ := readFrom_marked ih isGap short marked rest
      simp [readItems, bind, Except.bind, first, closing]
  | @item room text value gap gap' later values _ isGap isGap' others ih ih' =>
      intro fuel rest enough
      obtain ⟨fuel, rfl⟩ := Nat.exists_eq_add_one.mpr (Nat.zero_lt_of_lt enough)
      simp only [List.length_append, List.length_cons] at enough
      have short : 2 * text.length ≤ fuel := by omega
      have marked : ',' ∈ [',', ']', '\x7d'] := by decide
      obtain ⟨first, comma⟩ :=
        readFrom_marked ih isGap short marked (gap' ++ (later ++ ']' :: rest))
      have behind := others.skipGap isGap' (']' :: rest)
      have following := ih' fuel rest (by omega)
      simp [readItems, bind, Except.bind, first, comma, behind, following]
  | @lastEntry room key name text value gap keyText own isGap ih =>
      intro fuel rest enough
      obtain ⟨fuel, rfl⟩ := Nat.exists_eq_add_one.mpr (Nat.zero_lt_of_lt enough)
      simp only [List.length_append] at enough
      have short : 2 * text.length ≤ fuel := by omega
      have marked : '\x7d' ∈ [',', ']', '\x7d'] := by decide
      obtain ⟨first, closing⟩ := readFrom_marked ih isGap short marked rest
      have keyed := readKey_append keyText (own.solid (gap ++ '\x7d' :: rest))
      simp [readEntries, bind, Except.bind, keyed, first, closing]
  | @entry room key name text value gap gap' later entries keyText own isGap isGap' others ih ih' =>
      intro fuel rest enough
      obtain ⟨fuel, rfl⟩ := Nat.exists_eq_add_one.mpr (Nat.zero_lt_of_lt enough)
      simp only [List.length_append, List.length_cons] at enough
      have short : 2 * text.length ≤ fuel := by omega
      have marked : ',' ∈ [',', ']', '\x7d'] := by decide
      let behind := gap' ++ (later ++ '\x7d' :: rest)
      obtain ⟨first, comma⟩ := readFrom_marked ih isGap short marked behind
      have keyed := readKey_append keyText (own.solid (gap ++ ',' :: behind))
      have next := others.skipGap isGap' ('\x7d' :: rest)
      have following := ih' fuel rest (by omega)
      simp [readEntries, bind, Except.bind, keyed, first, comma, next, following, behind]

/-! ## Whole texts -/

/-- A text is read as what it stands for, and no other text is read. -/
theorem read_eq_ok_iff {text : String} :
    read room text = .ok value? ↔ StandsFor room text value? := by
  unfold read
  constructor
  · intro h
    obtain ⟨⟨own, left⟩, found, same⟩ := bind_eq_ok_iff.mp h
    dsimp only at same
    split at same
    · rename_i nothing
      obtain rfl := Except.ok.inj same
      obtain ⟨written, front, denotes⟩ := (readsDenoted _).value found
      obtain ⟨gap, behind, isGap⟩ := exists_gap text.toList
      obtain ⟨gap', after, isGap'⟩ := exists_gap left
      rw [List.isEmpty_iff.mp nothing, List.append_nil] at after
      rw [front, after] at behind
      exact ⟨gap, written, gap', behind, isGap, isGap', denotes⟩
    · simp at same
  · rintro ⟨gap, own, gap', same, isGap, isGap', denotes⟩
    have start := denotes.skipGap isGap gap'
    have enough : 2 * own.length ≤ 2 * text.toList.length + 2 := by
      rw [same, List.length_append, List.length_append]
      omega
    have found := denotes.readFrom _ gap' enough (endsNumber_gap isGap')
    rw [← start, ← same] at found
    simp [found, bind, Except.bind, skipGap_gap isGap']

end ApiBinding.Json

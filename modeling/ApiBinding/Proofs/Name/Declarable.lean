import ApiBinding.Proofs.Name.CamelCase
import ApiBinding.Proofs.Name.Identifier
import ApiBinding.TypeExpr.Basic
import Mathlib.Data.List.TakeWhile

/-! Names under which a type can be declared. The reserved prefix guards the keys that are reserved
words themselves; nothing guards the keywords of the built-in types, so a definition that is called
like one shares its name. -/

namespace ApiBinding.Name

/-- The keywords of the built-in types, as types are written. -/
def builtinKeywords : List String :=
  [TypeExpr.object, .string, .number, .boolean, .date, .file].map TypeExpr.render

/-- Neither a reserved word nor the keyword of a built-in type. -/
structure IsDeclarable (name : String) : Prop where
  free : isReserved name = false
  own : name ∉ builtinKeywords

instance (name : String) : Decidable (IsDeclarable name) :=
  decidable_of_iff (isReserved name = false ∧ name ∉ builtinKeywords)
    ⟨fun h => ⟨h.1, h.2⟩, fun h => ⟨h.free, h.own⟩⟩

/-- The word that is left of a key: its last path and package segment in camel case, without what
no name can hold, and spelled in letters. -/
def wordOf (lexicon : Lexicon) (raw : String) : String :=
  let segment := Text.afterLast '.' (Text.afterLast '/' raw.toList)
  String.ofList (lexicon.spell ((camelCase segment).filter isNameChar))

variable {lexicon : Lexicon}

/-! ## Prefixes -/

theorem isDeclarable_of_lowLine {name : String} (h : '_' ∈ name.toList) : IsDeclarable name := by
  have reserved : ∀ word ∈ reservedWords, '_' ∉ word.toList := by decide +kernel
  have builtin : ∀ word ∈ builtinKeywords, '_' ∉ word.toList := by decide +kernel
  refine ⟨?_, fun member => builtin name member h⟩
  rw [isReserved, List.contains_eq_mem, decide_eq_false_iff_not]
  exact fun member => reserved name member h

/-- A name of the default options with one of the prefixes is declarable. -/
theorem isDeclarable_prefixed (word : String) :
    IsDeclarable (({} : Options).reservedPrefix ++ word) ∧
      IsDeclarable (({} : Options).numericPrefix ++ word) := by
  constructor
  · exact isDeclarable_of_lowLine (by simp)
  · exact isDeclarable_of_lowLine (by simp)

/-- A word that is not declarable can stand as a name without a prefix. -/
theorem needsPrefix_of_not_isDeclarable {word : String} (h : ¬ IsDeclarable word) :
    needsPrefix word.toList = false := by
  have reserved : ∀ word ∈ reservedWords, needsPrefix word.toList = false := by decide +kernel
  have builtin : ∀ word ∈ builtinKeywords, needsPrefix word.toList = false := by decide +kernel
  by_cases free : isReserved word = true
  · exact reserved word (List.contains_iff_mem.mp free)
  · by_contra needed
    exact h ⟨by simpa using free, fun member => needed (builtin word member)⟩

/-! ## Names of definitions -/

theorem ofDefinition_of_isReserved {raw : String} (h : isReserved raw = true) (options : Options) :
    ofDefinition lexicon options raw = options.reservedPrefix ++ raw :=
  if_pos h

theorem ofDefinition_of_free {raw : String} (h : isReserved raw = false) (options : Options) :
    ofDefinition lexicon options raw =
      if needsPrefix (wordOf lexicon raw).toList then options.numericPrefix ++ wordOf lexicon raw
      else wordOf lexicon raw := by
  have free : ¬ isReserved raw = true := by simp [h]
  rw [ofDefinition, if_neg free, finish, wordOf, String.toList_ofList]

/-- A name that is not declarable is the word that is left of a key that is not reserved. -/
theorem ofDefinition_eq_iff {raw name : String} (h : ¬ IsDeclarable name) :
    ofDefinition lexicon {} raw = name ↔ isReserved raw = false ∧ wordOf lexicon raw = name := by
  constructor
  · rintro rfl
    by_cases reserved : isReserved raw = true
    · rw [ofDefinition_of_isReserved reserved] at h
      exact absurd (isDeclarable_prefixed raw).1 h
    · have free : isReserved raw = false := by simpa using reserved
      rw [ofDefinition_of_free free] at h ⊢
      split at h
      · exact absurd (isDeclarable_prefixed _).2 h
      · rename_i fits
        rw [if_neg fits]
        exact ⟨free, rfl⟩
  · rintro ⟨free, rfl⟩
    rw [ofDefinition_of_free free, needsPrefix_of_not_isDeclarable h]
    rfl

/-! ## Keys of letters and digits -/

/-- A letter of the first 128 characters or a digit. -/
def isAlphanumeric (c : Char) : Bool :=
  isPlain c && c != '_'

/-- A lexicon that spells no plain character. -/
structure Lexicon.KeepsPlain (lexicon : Lexicon) : Prop where
  readings : ∀ c, isPlain c = true → lexicon.reading? c = none
  phrases : ∀ entry ∈ lexicon.phrases, ∃ c rest, entry.1 = c :: rest ∧ isPlain c = false

theorem Lexicon.KeepsPlain.phraseAt? (keeps : lexicon.KeepsPlain) {c : Char}
    (plain : isPlain c = true) (rest : List Char) : lexicon.phraseAt? (c :: rest) = none := by
  have none_begins : (lexicon.phrases.filter fun entry =>
      !entry.1.isEmpty && entry.1.isPrefixOf (c :: rest)) = [] := by
    refine List.filter_eq_nil_iff.mpr fun entry member => ?_
    obtain ⟨first, others, begins, apart⟩ := keeps.phrases entry member
    have differ : first ≠ c := by
      rintro rfl
      simp [plain] at apart
    simp [begins, differ]
  rw [Lexicon.phraseAt?, none_begins]
  rfl

theorem Lexicon.KeepsPlain.spell (keeps : lexicon.KeepsPlain) {text : List Char}
    (plain : text.all isPlain = true) : lexicon.spell text = text := by
  unfold Lexicon.spell
  induction text with
  | nil => rfl
  | cons c rest ih =>
      rw [List.all_cons, Bool.and_eq_true] at plain
      rw [Lexicon.spellFrom, keeps.phraseAt? plain.1]
      simp only [keeps.readings c plain.1, ih plain.2]

/-- Camel case changes nothing where nothing separates words. -/
theorem camelCase_of_no_separator {text : List Char} (h : ∀ c ∈ text, isSeparator c = false) :
    camelCase text = text := by
  have apart : NoBoundary (text ++ []) := noBoundary_append h .nil
  exact joinWords_of_noBoundary (List.forall_mem_nil _) (by simpa using apart)

theorem afterLast_of_not_mem {mark : Char} {text : List Char} (h : mark ∉ text) :
    Text.afterLast mark text = text := by
  have all : ∀ c ∈ text.reverse, (c != mark) = true := by
    intro c member
    rw [bne_iff_ne]
    rintro rfl
    exact h (List.mem_reverse.mp member)
  rw [Text.afterLast, List.takeWhile_eq_self_iff.mpr all, List.reverse_reverse]

/-- Of a key of letters and digits nothing is taken away. -/
theorem wordOf_of_alphanumeric (keeps : lexicon.KeepsPlain) {raw : String}
    (h : raw.toList.all isAlphanumeric = true) : wordOf lexicon raw = raw := by
  have each : ∀ c ∈ raw.toList, isPlain c = true ∧ c ≠ '_' := by
    simpa [isAlphanumeric, List.all_eq_true] using h
  have known : ∀ code : Fin 128, isPlain (Char.ofNat code) = true → Char.ofNat code ≠ '_' →
      isSeparator (Char.ofNat code) = false ∧ Char.ofNat code ≠ '/' ∧ Char.ofNat code ≠ '.' := by
    decide +kernel
  have apart : ∀ c ∈ raw.toList, isSeparator c = false ∧ c ≠ '/' ∧ c ≠ '.' := by
    intro c member
    obtain ⟨plain, other⟩ := each c member
    obtain ⟨code, rfl⟩ := exists_code plain
    exact known code plain other
  have slash : '/' ∉ raw.toList := fun member => (apart _ member).2.1 rfl
  have dot : '.' ∉ raw.toList := fun member => (apart _ member).2.2 rfl
  have kept : raw.toList.filter isNameChar = raw.toList := by
    refine List.filter_eq_self.mpr fun c member => ?_
    rw [isNameChar_eq, (each c member).1, Bool.true_or]
  have plain : raw.toList.all isPlain = true :=
    List.all_eq_true.mpr fun c member => (each c member).1
  rw [wordOf, afterLast_of_not_mem slash, afterLast_of_not_mem dot,
    camelCase_of_no_separator fun c member => (apart c member).1, kept, keeps.spell plain,
    String.ofList_toList]

theorem keepsPlain_standard : Lexicon.standard.KeepsPlain := by
  have unread : ∀ code : Fin 128, Lexicon.standard.reading? (Char.ofNat code) = none := by
    decide +kernel
  refine ⟨fun c plain => ?_, ?_⟩
  · obtain ⟨code, rfl⟩ := exists_code plain
    exact unread code
  · intro entry member
    have begins : ∀ entry ∈ Lexicon.standard.phrases,
        (entry.1.head?.any fun c => !isPlain c) = true := by
      decide +kernel
    have first := begins entry member
    obtain ⟨phrase, letters⟩ := entry
    cases phrase with
    | nil => simp at first
    | cons c rest => exact ⟨c, rest, rfl, by simpa using first⟩

/-! ## Declarable names -/

/-- Which names of definitions can be declared as types, under the default options. A key that is
a reserved word gets a name that can. The name is the keyword of a built-in type where that is
what is left of a key. It is a reserved word at most where one is left of a key that was another
text; so a key of letters and digits never leads to a reserved word, and leads to the keyword of a
built-in type only if it is that keyword. -/
theorem isDeclarable_ofDefinition (lexicon : Lexicon) (raw : String) :
    (isReserved raw = true → ofDefinition lexicon {} raw = "__openAPI__" ++ raw ∧
      IsDeclarable (ofDefinition lexicon {} raw)) ∧
    (∀ keyword ∈ builtinKeywords, isReserved keyword = false →
      (ofDefinition lexicon {} raw = keyword ↔
        isReserved raw = false ∧ wordOf lexicon raw = keyword)) ∧
    (isReserved (ofDefinition lexicon {} raw) = true →
      isReserved (wordOf lexicon raw) = true ∧ wordOf lexicon raw ≠ raw) ∧
    (lexicon.KeepsPlain → raw.toList.all isAlphanumeric = true →
      isReserved (ofDefinition lexicon {} raw) = false ∧
      (ofDefinition lexicon {} raw ∈ builtinKeywords ↔
        raw ∈ builtinKeywords ∧ isReserved raw = false)) := by
  have reserved : isReserved (ofDefinition lexicon {} raw) = true →
      isReserved (wordOf lexicon raw) = true ∧ wordOf lexicon raw ≠ raw := by
    intro taken
    have undeclarable : ¬ IsDeclarable (ofDefinition lexicon {} raw) := by
      intro declarable
      simp [declarable.free] at taken
    obtain ⟨free, left⟩ := (ofDefinition_eq_iff undeclarable).mp rfl
    rw [← left] at taken
    refine ⟨taken, fun same => ?_⟩
    simp [same, free] at taken
  refine ⟨fun taken => ?_, fun keyword member free => ?_, reserved, fun keeps letters => ?_⟩
  · rw [ofDefinition_of_isReserved taken]
    exact ⟨rfl, (isDeclarable_prefixed raw).1⟩
  · exact ofDefinition_eq_iff fun declarable => declarable.own member
  · have same := wordOf_of_alphanumeric keeps letters
    refine ⟨?_, fun member => ?_, fun ⟨member, free⟩ => ?_⟩
    · by_contra taken
      exact (reserved (by simpa using taken)).2 same
    · obtain ⟨free, left⟩ :=
        (ofDefinition_eq_iff fun declarable => declarable.own member).mp rfl
      rw [← left, same] at member
      exact ⟨member, free⟩
    · rwa [(ofDefinition_eq_iff fun declarable => declarable.own member).mpr ⟨free, same⟩]

/-- A key that is a reserved word, one that leaves a keyword, and one of letters and a digit. -/
theorem isDeclarable_ofDefinition_standard :
    ofDefinition .standard {} "class" = "__openAPI__class" ∧
      ofDefinition .standard {} "app.number" = "number" ∧
      isReserved (ofDefinition .standard {} "Pet2") = false := by
  have reserved := (isDeclarable_ofDefinition .standard "class").1 (by decide +kernel)
  have keyword := (isDeclarable_ofDefinition .standard "app.number").2.1 "number"
    (by decide +kernel) (by decide +kernel)
  have letters := (isDeclarable_ofDefinition .standard "Pet2").2.2.2 keepsPlain_standard
    (by decide +kernel)
  exact ⟨reserved.1, keyword.mpr ⟨by decide +kernel, by decide +kernel⟩, letters.1⟩

/-- A definition that is called like a built-in type gets the name of that type. -/
theorem not_isDeclarable_date :
    ofDefinition .standard {} "Date" = "Date" ∧
      ¬ ∀ raw, IsDeclarable (ofDefinition .standard {} raw) := by
  have named : ofDefinition .standard {} "Date" = "Date" := by decide +kernel
  have keyword : ¬ IsDeclarable "Date" := by decide +kernel
  exact ⟨named, fun all => keyword (named ▸ all "Date")⟩

end ApiBinding.Name

import ApiBinding.TypeExpr.Literal

/-! The tokens of a type text, as a reader of types cuts them: words, quoted literals, quoted
member names and punctuation. Blanks and comments carry no tokens. -/

namespace ApiBinding.TypeText

/-! ## Characters -/

def punctuation : List Char :=
  ['(', ')', '[', ']', '\x7b', '\x7d', '|', '&', ',', ';', ':', '?']

/-- A character of a word: neither a blank nor a character with a meaning of its own. -/
def isWordChar (c : Char) : Bool :=
  !Text.isBlank c && !punctuation.contains c && !(['"', '\'', '/', '\\'].contains c)

/-- A character that ends a line, and with it a comment. -/
def isLineEnd (c : Char) : Bool :=
  ['\n', '\r', '\u2028', '\u2029'].contains c

/-! ## Tokens -/

inductive Token where
  /-- A word, or a literal with its double quotes. -/
  | atom (text : String)
  /-- A member name without its single quotes and escapes. -/
  | name (text : String)
  | mark (c : Char)
deriving DecidableEq

/-- What stands before the next character. -/
inductive Mode where
  | blank
  | word (text : List Char)
  | literal (text : List Char) (escaped : Bool)
  | name (text : List Char) (escaped : Bool)
  | slash
  | comment
deriving DecidableEq

/-- A character after a blank or the end of a token. -/
def start (c : Char) : Option (List Token × Mode) :=
  if isWordChar c then some ([], .word [c])
  else if Text.isBlank c then some ([], .blank)
  else if punctuation.contains c then some ([.mark c], .blank)
  else if c == '"' then some ([], .literal ['"'] false)
  else if c == '\'' then some ([], .name [] false)
  else if c == '/' then some ([], .slash)
  else none

/-- A character, the tokens that it ends, and what stands before the next one. -/
def Mode.next (c : Char) : Mode → Option (List Token × Mode)
  | .blank => start c
  | .word text =>
    if isWordChar c then some ([], .word (text ++ [c]))
    else (start c).map fun (tokens, mode) => (.atom (String.ofList text) :: tokens, mode)
  | .literal text true => some ([], .literal (text ++ [c]) false)
  | .literal text false =>
    if c == '"' then some ([.atom (String.ofList (text ++ [c]))], .blank)
    else some ([], .literal (text ++ [c]) (c == '\\'))
  | .name text true => some ([], .name (text ++ [c]) false)
  | .name text false =>
    if c == '\'' then some ([.name (String.ofList text)], .blank)
    else if c == '\\' then some ([], .name text true)
    else some ([], .name (text ++ [c]) false)
  | .slash => if c == '/' then some ([], .comment) else none
  | .comment => if isLineEnd c then some ([], .blank) else some ([], .comment)

def Mode.finish : Mode → Option (List Token)
  | .blank => some []
  | .word text => some [.atom (String.ofList text)]
  | .comment => some []
  | _ => none

def lexFrom (mode : Mode) : List Char → Option (List Token)
  | [] => mode.finish
  | c :: rest => do
    let (tokens, after) ← mode.next c
    let others ← lexFrom after rest
    some (tokens ++ others)

/-- The tokens of a text, if it is made of tokens, blanks and comments. -/
def lex (text : List Char) : Option (List Token) :=
  lexFrom .blank text

/-! ## Pieces of text -/

/-- A text that no word before it runs into. -/
def Delimited (text : List Char) : Prop :=
  ∀ c ∈ text.head?, isWordChar c = false

/-- A piece of text has these tokens wherever a delimited text follows it. -/
def LexesTo (text : List Char) (tokens : List Token) : Prop :=
  ∀ rest, Delimited rest → lex (text ++ rest) = (lex rest).map (tokens ++ ·)

theorem delimited_cons {c : Char} (h : isWordChar c = false) (rest : List Char) :
    Delimited (c :: rest) := by
  simpa [Delimited] using h

theorem delimited_nil : Delimited [] := by
  simp [Delimited]

theorem lex_blank {c : Char} (h : Text.isBlank c = true) (rest : List Char) :
    lex (c :: rest) = lex rest := by
  have next : Mode.blank.next c = some ([], .blank) := by
    simp [Mode.next, start, isWordChar, h]
  rw [lex, lexFrom, next]
  simp [lex]

theorem not_isBlank_of_punctuation {c : Char} (h : c ∈ punctuation) : Text.isBlank c = false := by
  simp only [punctuation, List.mem_cons, List.not_mem_nil, or_false] at h
  rcases h with rfl | rfl | rfl | rfl | rfl | rfl | rfl | rfl | rfl | rfl | rfl | rfl <;> decide

theorem lex_mark {c : Char} (h : c ∈ punctuation) (rest : List Char) :
    lex (c :: rest) = (lex rest).map (.mark c :: ·) := by
  have next : Mode.blank.next c = some ([.mark c], .blank) := by
    simp [Mode.next, start, isWordChar, not_isBlank_of_punctuation h, h]
  rw [lex, lexFrom, next]
  cases h : lexFrom .blank rest <;> simp [lex, h]

/-! ## Words -/

/-- A text of word characters. -/
def IsWord (text : String) : Prop :=
  text ≠ "" ∧ ∀ c ∈ text.toList, isWordChar c = true

instance (text : String) : Decidable (IsWord text) :=
  have : Decidable (∀ c ∈ text.toList, isWordChar c = true) := List.decidableBAll _ _
  inferInstanceAs (Decidable (text ≠ "" ∧ _))

theorem lexFrom_word {text : List Char} (h : ∀ c ∈ text, isWordChar c = true)
    (read rest : List Char) (delimited : Delimited rest) :
    lexFrom (.word read) (text ++ rest) =
      (lex rest).map (.atom (String.ofList (read ++ text)) :: ·) := by
  induction text generalizing read with
  | nil =>
      cases rest with
      | nil => simp [lexFrom, lex, Mode.finish]
      | cons c rest =>
          have other : isWordChar c = false := by simpa [Delimited] using delimited
          rw [List.nil_append, lexFrom, lex, lexFrom]
          simp only [Mode.next, other]
          cases h : start c with
          | none => simp
          | some step => cases h' : lexFrom step.2 rest <;> simp [h']
  | cons c text ih =>
      have here : isWordChar c = true := h c (by simp)
      rw [List.cons_append, lexFrom]
      simp only [Mode.next, here, if_true]
      have rest := ih (fun other member => h other (by simp [member])) (read ++ [c])
      simp [rest]

theorem lexesTo_word {text : String} (h : IsWord text) : LexesTo text.toList [.atom text] := by
  intro rest delimited
  obtain ⟨nonempty, chars⟩ := h
  obtain ⟨c, others, same⟩ : ∃ c others, text.toList = c :: others := by
    apply List.exists_cons_of_ne_nil
    simpa using nonempty
  have here : isWordChar c = true := chars c (by simp [same])
  have there : ∀ other ∈ others, isWordChar other = true :=
    fun other member => chars other (by simp [same, member])
  have back : String.ofList (c :: others) = text := by rw [← same, String.ofList_toList]
  rw [same, List.cons_append, lex, lexFrom]
  have words := lexFrom_word there [c] rest delimited
  simp [Mode.next, start, here, words, back]

/-! ## Literals -/

theorem lexFrom_plain {text : List Char} (h : ∀ c ∈ text, c ≠ '"' ∧ c ≠ '\\')
    (read rest : List Char) :
    lexFrom (.literal read false) (text ++ rest) =
      lexFrom (.literal (read ++ text) false) rest := by
  induction text generalizing read with
  | nil => simp
  | cons c text ih =>
      obtain ⟨noQuote, noEscape⟩ := h c (by simp)
      have others := ih (fun other member => h other (by simp [member])) (read ++ [c])
      have opened : (c == '\\') = false := by simpa using noEscape
      rw [List.cons_append, lexFrom]
      simp [Mode.next, noQuote, opened, others]

theorem lexFrom_escape (c : Char) (read rest : List Char) :
    lexFrom (.literal read false) ('\\' :: c :: rest) =
      lexFrom (.literal (read ++ ['\\', c]) false) rest := by
  simp [lexFrom, Mode.next]

theorem digitChar_plain {digit : Nat} (h : digit < 16) :
    Nat.digitChar digit ≠ '"' ∧ Nat.digitChar digit ≠ '\\' := by
  have all : ∀ digit < 16, Nat.digitChar digit ≠ '"' ∧ Nat.digitChar digit ≠ '\\' := by decide
  exact all digit h

/-- An escaped character stays inside the quotes. -/
theorem lexFrom_escapeChar (c : Char) (read rest : List Char) :
    lexFrom (.literal read false) (Json.escapeChar c ++ rest) =
      lexFrom (.literal (read ++ Json.escapeChar c) false) rest := by
  unfold Json.escapeChar
  split
  · exact lexFrom_escape _ read rest
  split
  · exact lexFrom_escape _ read rest
  split
  · exact lexFrom_escape _ read rest
  split
  · exact lexFrom_escape _ read rest
  split
  · exact lexFrom_escape _ read rest
  split
  · exact lexFrom_escape _ read rest
  split
  · exact lexFrom_escape _ read rest
  split
  · have high := digitChar_plain (show c.toNat / 16 < 16 by omega)
    have low := digitChar_plain (show c.toNat % 16 < 16 by omega)
    have plain : ∀ digit ∈ ['0', '0', Nat.digitChar (c.toNat / 16),
        Nat.digitChar (c.toNat % 16)], digit ≠ '"' ∧ digit ≠ '\\' := by
      simp [high, low]
    have digits := lexFrom_plain plain (read ++ ['\\', 'u']) rest
    rw [List.append_assoc] at digits
    exact (lexFrom_escape 'u' read _).trans digits
  · rename_i noQuote noEscape _ _ _ _ _ _
    simp only [beq_iff_eq] at noQuote noEscape
    exact lexFrom_plain (by simp [noQuote, noEscape]) read rest

theorem lexFrom_escaped (content read rest : List Char) :
    lexFrom (.literal read false) (content.flatMap Json.escapeChar ++ '"' :: rest) =
      (lex rest).map
        (.atom (String.ofList (read ++ content.flatMap Json.escapeChar ++ ['"'])) :: ·) := by
  induction content generalizing read with
  | nil =>
      rw [List.flatMap_nil, List.nil_append, lexFrom]
      cases h : lexFrom .blank rest <;> simp [Mode.next, lex, h]
  | cons c content ih =>
      rw [List.flatMap_cons, List.append_assoc, lexFrom_escapeChar, ih]
      simp

theorem lexesTo_quote (content : String) :
    LexesTo (Json.quote content).toList [.atom (Json.quote content)] := by
  intro rest _
  have literal := lexFrom_escaped content.toList ['"'] rest
  have next : Mode.blank.next '"' = some ([], .literal ['"'] false) := by decide
  simp only [Json.quote, String.toList_ofList, List.cons_append, List.append_assoc, lex,
    lexFrom, next]
  simpa [lex] using literal

/-! ## Member names -/

theorem lexFrom_nameChars (content read rest : List Char) :
    lexFrom (.name read false) (content.flatMap TypeExpr.escapeNameChar ++ '\'' :: rest) =
      (lex rest).map (.name (String.ofList (read ++ content)) :: ·) := by
  induction content generalizing read with
  | nil =>
      rw [List.flatMap_nil, List.nil_append, lexFrom]
      cases h : lexFrom .blank rest <;> simp [Mode.next, lex, h]
  | cons c content ih =>
      rw [List.flatMap_cons, List.append_assoc]
      have step : lexFrom (.name read false) (TypeExpr.escapeNameChar c ++
            (content.flatMap TypeExpr.escapeNameChar ++ '\'' :: rest)) =
          lexFrom (.name (read ++ [c]) false)
            (content.flatMap TypeExpr.escapeNameChar ++ '\'' :: rest) := by
        unfold TypeExpr.escapeNameChar
        split
        · simp [lexFrom, Mode.next]
        · rename_i plain
          simp only [Bool.or_eq_true, beq_iff_eq, not_or] at plain
          simp [lexFrom, Mode.next, plain]
      rw [step, ih]
      simp

/-- A member name in quotes is read back as it was. -/
theorem lexesTo_quoteName (name : String) :
    LexesTo (TypeExpr.quoteName name).toList [.name name] := by
  intro rest _
  have content := lexFrom_nameChars name.toList [] rest
  have next : Mode.blank.next '\'' = some ([], .name [] false) := by decide
  simp only [TypeExpr.quoteName, String.toList_ofList, List.cons_append, List.append_assoc, lex,
    lexFrom, next]
  simpa [lex] using content

/-! ## Comments -/

theorem lexFrom_comment {text : List Char} (h : ∀ c ∈ text, isLineEnd c = false)
    (rest : List Char) : lexFrom .comment (text ++ '\n' :: rest) = lex rest := by
  induction text with
  | nil =>
      have next : Mode.comment.next '\n' = some ([], .blank) := by decide
      rw [List.nil_append, lexFrom, next]
      simp [lex]
  | cons c text ih =>
      have here : isLineEnd c = false := h c (by simp)
      have others := ih fun other member => h other (by simp [member])
      rw [List.cons_append, lexFrom]
      simp [Mode.next, here, others]

/-- A comment reaches to the end of its line. -/
theorem lex_comment {text : List Char} (h : ∀ c ∈ text, isLineEnd c = false)
    (rest : List Char) : lex ('/' :: '/' :: (text ++ '\n' :: rest)) = lex rest := by
  have first : Mode.blank.next '/' = some ([], .slash) := by decide
  have second : Mode.slash.next '/' = some ([], .comment) := by decide
  rw [lex, lexFrom, first]
  simp only [Option.bind_eq_bind, Option.bind_some]
  rw [lexFrom, second]
  simp [lexFrom_comment h]

end ApiBinding.TypeText

import ApiBinding.Proofs.Text.Pieces
import ApiBinding.Proofs.TypeExpr.Reader

/-! The text of a type expression is cut into its tokens, and so read as its chain. -/

namespace ApiBinding

/-! ## Words of a description -/

namespace Text

theorem not_isBlank_of_mem_words {text word : List Char} (h : word ∈ words text) :
    ∀ c ∈ word, isBlank c = false :=
  not_cut_of_mem_pieces (List.mem_filter.mp h).1

end Text

namespace TypeText

theorem isBlank_of_isLineEnd {c : Char} (h : isLineEnd c = true) : Text.isBlank c = true := by
  simp only [isLineEnd, List.contains_iff_mem, List.mem_cons, List.not_mem_nil, or_false] at h
  rcases h with rfl | rfl | rfl | rfl <;> decide

/-- A description on one line does not end the line. -/
theorem not_isLineEnd_commentText (description : String) :
    ∀ c ∈ (TypeExpr.commentText description).toList, isLineEnd c = false := by
  intro c member
  rw [TypeExpr.commentText, String.toList_intercalate] at member
  rcases Text.mem_intercalate member with member | ⟨word, hword, member⟩
  · obtain rfl : c = ' ' := by simpa using member
    decide
  · simp only [List.map_map, List.mem_map, Function.comp_apply, String.toList_ofList] at hword
    obtain ⟨word, hword, rfl⟩ := hword
    have visible := Text.not_isBlank_of_mem_words hword c member
    cases ends : isLineEnd c with
    | false => rfl
    | true => simp [isBlank_of_isLineEnd ends] at visible

/-! ## Marks and separators -/

theorem not_isWordChar_of_punctuation {c : Char} (h : c ∈ punctuation) : isWordChar c = false := by
  simp [isWordChar, h]

theorem LexesTo.opened {c : Char} (h : c ∈ punctuation) {text : List Char} {tokens : List Token}
    (inside : LexesTo text tokens) : LexesTo (c :: text) (.mark c :: tokens) := by
  intro rest delimited
  rw [List.cons_append, lex_mark h, inside rest delimited]
  simp [Function.comp_def]

theorem LexesTo.closed {c : Char} (h : c ∈ punctuation) {text : List Char} {tokens : List Token}
    (inside : LexesTo text tokens) : LexesTo (text ++ [c]) (tokens ++ [.mark c]) := by
  intro rest _
  have delimited := delimited_cons (not_isWordChar_of_punctuation h) rest
  rw [List.append_assoc, List.singleton_append, inside _ delimited, lex_mark h]
  simp [Function.comp_def]

/-- Characters that end what stands before them and are read as one mark. -/
def IsSeparator (text : List Char) (c : Char) : Prop :=
  ∀ rest, Delimited (text ++ rest) ∧ lex (text ++ rest) = (lex rest).map (.mark c :: ·)

theorem isSeparator_comma : IsSeparator ", ".toList ',' := by
  intro rest
  refine ⟨delimited_cons (by decide) _, ?_⟩
  show lex (',' :: ' ' :: rest) = _
  rw [lex_mark (by decide), lex_blank (by decide)]

theorem isSeparator_spaced {c : Char} (h : c ∈ punctuation) : IsSeparator [' ', c, ' '] c := by
  intro rest
  refine ⟨delimited_cons (by decide) _, ?_⟩
  show lex (' ' :: c :: ' ' :: rest) = _
  rw [lex_blank (by decide), lex_mark h, lex_blank (by decide)]

section sequence

variable {α : Type} {text : α → List Char} {tokens : α → List Token} {items : List α}

theorem lexesTo_separated {separator : List Char} {c : Char} (hseparator : IsSeparator separator c)
    (h : ∀ item ∈ items, LexesTo (text item) (tokens item)) :
    LexesTo (separator.intercalate (items.map text)) (between c (items.map tokens)) := by
  induction items with
  | nil =>
      intro rest _
      simp [between]
  | cons item rest ih =>
      cases rest with
      | nil =>
          rw [List.map_singleton, List.map_singleton, between_singleton,
            List.intercalate_singleton]
          exact h item (by simp)
      | cons next rest =>
          intro after delimited
          have others := ih (fun other member => h other (List.mem_cons_of_mem _ member)) after
            delimited
          rw [List.map_cons, List.map_cons] at others ⊢
          rw [List.map_cons, List.map_cons, between_cons_cons, List.intercalate_cons_cons,
            List.append_assoc, List.append_assoc, h item (by simp) _ (hseparator _).1,
            (hseparator _).2, others]
          simp [Function.comp_def]

/-! ## Lines -/

/-- A line has these tokens. -/
def LineLexesTo (line : List Char) (tokens : List Token) : Prop :=
  ∀ rest, lex (line ++ '\n' :: rest) = (lex rest).map (tokens ++ ·)

theorem LexesTo.line {line : List Char} {tokens : List Token} (h : LexesTo line tokens) :
    LineLexesTo line tokens := by
  intro rest
  rw [h _ (delimited_cons (by decide) rest), lex_blank (by decide)]

/-- A comment behind a line has no tokens. -/
theorem LexesTo.line_comment {line comment : List Char} {tokens : List Token}
    (h : LexesTo line tokens) (hcomment : ∀ c ∈ comment, isLineEnd c = false) :
    LineLexesTo (line ++ " // ".toList ++ comment) tokens := by
  intro rest
  have hspaced : ∀ c ∈ ' ' :: comment, isLineEnd c = false := by
    intro c member
    rcases List.mem_cons.mp member with rfl | member
    · decide
    · exact hcomment c member
  have ends := lex_comment hspaced rest
  have after : " // ".toList ++ (comment ++ '\n' :: rest) =
      ' ' :: '/' :: '/' :: (' ' :: comment ++ '\n' :: rest) := rfl
  rw [List.append_assoc, List.append_assoc, after, h _ (delimited_cons (by decide) _),
    lex_blank (by decide), ends]

theorem lex_lines (h : ∀ item ∈ items, LineLexesTo (text item) (tokens item)) (rest : List Char) :
    lex (['\n'].intercalate (items.map text) ++ '\n' :: rest) =
      (lex rest).map (items.flatMap tokens ++ ·) := by
  induction items with
  | nil =>
      rw [List.map_nil, List.intercalate_nil, List.nil_append, lex_blank (by decide)]
      simp
  | cons item others ih =>
      cases others with
      | nil =>
          rw [List.map_singleton, List.intercalate_singleton, h item (by simp)]
          simp
      | cons next others =>
          have after := ih fun other member => h other (List.mem_cons_of_mem _ member)
          rw [List.map_cons] at after ⊢
          rw [List.map_cons, List.intercalate_cons_cons, List.append_assoc, List.append_assoc,
            List.singleton_append, h item (by simp), after]
          simp [Function.comp_def]

end sequence

/-- A member is read without its description. -/
theorem lineLexesTo_member {type : String} {tokens : List Token} (h : LexesTo type.toList tokens)
    (name : Key) (required : Bool) (description : Option String) :
    LineLexesTo (TypeExpr.memberLine name required type description).toList
      (memberTokens name.display required tokens) := by
  have line : LexesTo
      (TypeExpr.quoteName name.display ++ (if required then ": " else "?: ") ++ type ++ ";").toList
      (memberTokens name.display required tokens) := by
    intro rest _
    have named := lexesTo_quoteName name.display
    have typed := h (';' :: rest) (delimited_cons (by decide) rest)
    rw [lex_mark (by decide)] at typed
    simp only [String.toList_append, List.append_assoc]
    cases required with
    | false =>
        show lex (_ ++ '?' :: ':' :: ' ' :: (type.toList ++ ';' :: rest)) = _
        rw [named _ (delimited_cons (by decide) _), lex_mark (by decide), lex_mark (by decide),
          lex_blank (by decide), typed]
        simp [memberTokens, Function.comp_def]
    | true =>
        show lex (_ ++ ':' :: ' ' :: (type.toList ++ ';' :: rest)) = _
        rw [named _ (delimited_cons (by decide) _), lex_mark (by decide), lex_blank (by decide),
          typed]
        simp [memberTokens, Function.comp_def]
  unfold TypeExpr.memberLine
  dsimp only
  cases description with
  | none => exact line.line
  | some text =>
      dsimp only
      split
      · exact line.line
      · rw [String.toList_append, String.toList_append]
        exact line.line_comment (not_isLineEnd_commentText text)

end TypeText

namespace TypeExpr

open TypeText TypeTree

/-! ## The tokens of the text -/

theorem renderAll_eq (exprs : List TypeExpr) : renderAll exprs = exprs.map render := by
  induction exprs with
  | nil => rfl
  | cons expr rest ih => simp [renderAll, ih]

theorem renderMembers_eq (members : List (Member TypeExpr)) :
    renderMembers members = members.map fun member =>
      memberLine member.name member.required member.type.render member.description := by
  induction members with
  | nil => rfl
  | cons member rest ih => simp [renderMembers, ih]

theorem lexesTo_array {element : TypeExpr} (h : LexesTo element.render.toList element.tokens) :
    LexesTo (TypeExpr.array element).render.toList (TypeExpr.array element).tokens := by
  have suffix {text : List Char} {tokens : List Token} (h : LexesTo text tokens) :
      LexesTo (text ++ ['[', ']']) (tokens ++ [.mark '[', .mark ']']) := by
    simpa using (@LexesTo.closed '[' (by decide) _ _ h).closed (c := ']') (by decide)
  rw [render, tokens]
  split
  · simpa using suffix ((h.closed (c := ')') (by decide)).opened (c := '(') (by decide))
  · rw [String.toList_append]
    exact suffix h

theorem lexesTo_struct {members : List (Member TypeExpr)}
    (h : ∀ member ∈ members, LexesTo member.type.render.toList member.type.tokens) :
    LexesTo (TypeExpr.struct members).render.toList (TypeExpr.struct members).tokens := by
  intro rest _
  have lines := lex_lines (fun member inside => lineLexesTo_member (h member inside) member.name
    member.required member.description) ('\x7d' :: rest)
  rw [lex_mark (by decide)] at lines
  simp only [render, tokens, renderMembers_eq, tokensOfMembers_eq, String.toList_append,
    String.toList_intercalate, List.map_map, List.append_assoc]
  show lex ('\x7b' :: '\n' :: (_ ++ '\n' :: '\x7d' :: rest)) = _
  rw [lex_mark (by decide), lex_blank (by decide)]
  refine (congrArg (Option.map (Token.mark '\x7b' :: ·)) lines).trans ?_
  simp [Function.comp_def]

/-- The text of an expression is cut into the tokens of the expression. -/
theorem Buildable.lexesTo {expr : TypeExpr} (h : expr.Buildable) :
    LexesTo expr.render.toList expr.tokens := by
  induction h with
  | primitive word =>
      rw [render, tokens]
      exact lexesTo_word word
  | reference word =>
      rw [render, tokens]
      exact lexesTo_word word
  | verbatim word =>
      rw [render, tokens]
      exact lexesTo_word word
  | array _ ih =>
      exact lexesTo_array ih
  | tuple _ ih =>
      rw [render, tokens, renderAll_eq, tokensOfAll_eq, String.toList_append, String.toList_append,
        String.toList_intercalate, List.map_map]
      exact ((lexesTo_separated isSeparator_comma ih).closed (by decide)).opened (by decide)
  | union _ _ ih =>
      rw [render, tokens, renderAll_eq, tokensOfAll_eq, String.toList_intercalate, List.map_map]
      exact lexesTo_separated (isSeparator_spaced (by decide)) ih
  | intersection _ _ ih =>
      rw [render, tokens, renderAll_eq, tokensOfAll_eq, String.toList_append, String.toList_append,
        String.toList_intercalate, List.map_map]
      exact ((lexesTo_separated (isSeparator_spaced (by decide)) ih).closed
        (by decide)).opened (by decide)
  | literals _ atoms =>
      rw [render, tokens, String.toList_intercalate]
      exact lexesTo_separated (isSeparator_spaced (by decide))
        fun text member => lexesTo_atom (atoms text member)
  | struct _ ih =>
      exact lexesTo_struct ih

/-! ## Reading back -/

/-- The text of an expression is read as its chain. -/
theorem read_render {expr : TypeExpr} (h : expr.Buildable) :
    read expr.render = some expr.chain.tree := by
  have tokens := h.lexesTo [] delimited_nil
  have reads := h.readsTo .empty [] []
  rw [List.append_nil] at tokens reads
  have blank : lex [] = some [] := rfl
  rw [blank] at tokens
  simp only [Option.map_some, List.append_nil] at tokens
  unfold TypeText.read
  rw [tokens]
  have run : State.start.run expr.tokens =
      some ⟨.behind expr.chain.last, Level.empty.pass expr.chain, []⟩ := reads
  simp [run, State.finish, Level.close_pass_empty]

/-- The text of an expression can always be read. It is read as the expression exactly if no bar
is torn from its union. -/
theorem read_render_eq_tree_iff {expr : TypeExpr} (h : expr.Buildable) :
    ∃ found, read expr.render = some found ∧ (found = expr.tree ↔ expr.KeepsGroups) :=
  ⟨expr.chain.tree, read_render h, h.accurate.same⟩

/-- An array of a union of a name, an intersection and two literals. -/
def arrayOfUnion : TypeExpr :=
  .array (.union [.reference "A", .intersection [.reference "B", .reference "C"],
    .literals ["\"x|y\"", "-1"]])

theorem buildable_arrayOfUnion : arrayOfUnion.Buildable := by
  have parts : ∀ part ∈ [.reference "B", .reference "C"], Buildable part := by
    simpa using ⟨.reference (by decide), .reference (by decide)⟩
  have literals : (TypeExpr.literals ["\"x|y\"", "-1"]).Buildable :=
    @buildable_ofLiterals [.text "x|y", .int (-1)] _ (by simp) (by simp [IsScalar]) rfl
  have members : ∀ member ∈ [.reference "A", .intersection [.reference "B", .reference "C"],
      .literals ["\"x|y\"", "-1"]], Buildable member := by
    simpa using ⟨.reference (by decide), .intersection (by simp) parts, literals⟩
  exact .array (.union (by simp) members)

theorem read_render_of_arrayOfUnion :
    arrayOfUnion.Buildable ∧ arrayOfUnion.render = "(A | (B & C) | \"x|y\" | -1)[]" ∧
      read arrayOfUnion.render = some arrayOfUnion.tree := by
  refine ⟨buildable_arrayOfUnion, rfl, ?_⟩
  obtain ⟨found, reads, same⟩ := read_render_eq_tree_iff buildable_arrayOfUnion
  rw [reads, same.mpr]
  simp [arrayOfUnion, KeepsGroups, KeepAllGroups, hasOpenBar, isOpenUnion]

/-- An intersection puts no parentheses around a union, so its last alternative is read as a part
of the intersection. -/
theorem read_render_of_unionInIntersection :
    let expr := TypeExpr.intersection [.union [.reference "A", .reference "B"], .reference "C"]
    expr.Buildable ∧ expr.render = "(A | B & C)" ∧
      expr.tree = .intersection [.union [.atom "A", .atom "B"], .atom "C"] ∧
      read expr.render = some (.union [.atom "A", .intersection [.atom "B", .atom "C"]]) ∧
      read expr.render ≠ some expr.tree := by
  have alternatives : ∀ member ∈ [.reference "A", .reference "B"], Buildable member := by
    simpa using ⟨.reference (by decide), .reference (by decide)⟩
  have members : ∀ member ∈ [.union [.reference "A", .reference "B"], .reference "C"],
      Buildable member := by
    simpa using ⟨.union (by simp) alternatives, .reference (by decide)⟩
  refine ⟨.intersection (by simp) members, rfl, rfl, rfl, ?_⟩
  -- A union and an intersection: the constructors differ.
  intro same
  injection same with same
  injection same

end TypeExpr

end ApiBinding

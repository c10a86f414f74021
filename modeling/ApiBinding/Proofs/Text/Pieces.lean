import ApiBinding.Text.Class

/-! Texts cut into pieces and put together again. -/

namespace ApiBinding.Text

variable {cut : Char → Bool}

theorem pieces_eq_splitOnP (cut : Char → Bool) (text : List Char) :
    pieces cut text = text.splitOnP cut := by
  induction text with
  | nil => rw [pieces, List.splitOnP_nil]
  | cons c rest ih => rw [pieces, List.splitOnP_cons_eq_if_modifyHead, ih]

theorem pieces_ne_nil (cut : Char → Bool) (text : List Char) : pieces cut text ≠ [] := by
  rw [pieces_eq_splitOnP]
  exact List.splitOnP_ne_nil cut text

theorem pieces_eq_self {text : List Char} (whole : ∀ c ∈ text, cut c = false) :
    pieces cut text = [text] := by
  rw [pieces_eq_splitOnP, List.splitOnP_eq_singleton whole]

/-- The first cut ends the first piece. -/
theorem pieces_append_cons {text rest : List Char} (whole : ∀ c ∈ text, cut c = false) {mark : Char}
    (cuts : cut mark = true) : pieces cut (text ++ mark :: rest) = text :: pieces cut rest := by
  rw [pieces_eq_splitOnP, pieces_eq_splitOnP,
    List.splitOnP_append_cons_of_forall_mem whole mark cuts]

/-- The pieces between one mark, put together around it, are the text again. -/
theorem intercalate_pieces (mark : Char) (text : List Char) :
    [mark].intercalate (pieces (· == mark) text) = text := by
  rw [pieces_eq_splitOnP, ← List.splitOn_eq_splitOnP, List.intercalate_splitOn]

theorem pieces_intercalate {mark : Char} {texts : List (List Char)}
    (whole : ∀ text ∈ texts, mark ∉ text) (nonempty : texts ≠ []) :
    pieces (· == mark) ([mark].intercalate texts) = texts := by
  rw [pieces_eq_splitOnP, ← List.splitOn_eq_splitOnP, List.splitOn_intercalate mark whole nonempty]

theorem mem_intercalate {α : Type} {separator : List α} {pieces : List (List α)} {a : α}
    (h : a ∈ separator.intercalate pieces) : a ∈ separator ∨ ∃ piece ∈ pieces, a ∈ piece := by
  induction pieces with
  | nil => simp at h
  | cons piece rest ih =>
      cases rest with
      | nil =>
          rw [List.intercalate_singleton] at h
          exact .inr ⟨piece, by simp, h⟩
      | cons next rest =>
          rw [List.intercalate_cons_cons] at h
          rcases List.mem_append.mp h with h | h
          · rcases List.mem_append.mp h with h | h
            · exact .inr ⟨piece, by simp, h⟩
            · exact .inl h
          · rcases ih h with h | ⟨other, member, h⟩
            · exact .inl h
            · exact .inr ⟨other, List.mem_cons_of_mem _ member, h⟩

theorem not_cut_of_mem_pieces {text piece : List Char} (h : piece ∈ pieces cut text) :
    ∀ c ∈ piece, cut c = false := by
  induction text generalizing piece with
  | nil =>
      obtain rfl := List.mem_singleton.mp h
      simp
  | cons first rest ih =>
      rw [pieces] at h
      split at h
      · rcases List.mem_cons.mp h with rfl | h
        · simp
        · exact ih h
      · rename_i kept
        obtain ⟨head, others, cuts⟩ := List.exists_cons_of_ne_nil (pieces_ne_nil cut rest)
        rw [cuts] at h ih
        rcases List.mem_cons.mp h with rfl | h
        · have inside := ih (List.mem_cons_self)
          simpa [kept] using inside
        · exact ih (List.mem_cons_of_mem _ h)

end ApiBinding.Text

import ApiBinding.Operation.Response
import ApiBinding.Proofs.Number.Integer
import ApiBinding.Proofs.Outcome
import ApiBinding.Proofs.Value.Parts

/-! The response that the status codes select. A code of digits is read as a number, unless it is
too long or a digit of it is no decimal digit. -/

namespace ApiBinding

namespace Operation

/-- A code of digits that is not read as a number. -/
structure UnreadableCode (code : String) : Prop where
  digits : isDigits code = true
  unread : Integer.digitLimit < code.length ∨ ∃ c ∈ code.toList, Text.decimalValue? c = none

theorem unreadableCode_of_read? {code : String} (digits : isDigits code = true)
    (unread : Integer.read? code.toList = none) : UnreadableCode code := by
  refine ⟨digits, ?_⟩
  simp only [isDigits, Bool.and_eq_true, Bool.not_eq_true', List.all_eq_true] at digits
  obtain ⟨nonempty, digits⟩ := digits
  by_contra readable
  rw [not_or, Nat.not_lt, not_exists] at readable
  obtain ⟨short, decimal⟩ := readable
  have decimal' : ∀ c ∈ code.toList, (Text.decimalValue? c).isSome = true := by
    intro c member
    have := decimal c
    rw [not_and] at this
    exact Option.ne_none_iff_isSome.mp (this member)
  have nonempty' : code.toList ≠ [] := by
    simpa [String.isEmpty_iff] using nonempty
  have short' : code.toList.length ≤ Integer.digitLimit := by
    rwa [String.length_toList]
  obtain ⟨number, found⟩ := Integer.exists_read? nonempty' decimal' short'
  simp [found] at unread

theorem ends_responseEntry (responses : Mapping) (code : String) :
    Ends (responseEntry responses code)
      (fun entry => entry = .null ∨ Value.Holds (.object responses) entry)
      (Stops fun defect => defect = .statusNotDecimal ∧ UnreadableCode code) := by
  unfold responseEntry
  split
  · split
    · rename_i digits
      split
      · rename_i status _
        refine .ok ?_
        cases found : responses.get? (.int status) with
        | none => exact .inl rfl
        | some entry =>
            obtain ⟨key, member⟩ := Mapping.mem_of_get? found
            exact .inr (.entry member)
      · rename_i unread
        exact .error (.defect ⟨rfl, unreadableCode_of_read? digits unread⟩)
    · exact .ok (.inl rfl)
  · rename_i entry present
    exact .ok (.inr (Value.holds_field rfl (present ·)))

/-- The selected response is one of the responses. -/
theorem ends_selectResponse (responses : Mapping) (codes : List String) :
    Ends (selectResponse responses codes)
      (fun found => ∀ entry, found = some entry → Value.Holds (.object responses) entry)
      (Stops fun defect => defect = .statusNotDecimal ∧ ∃ code ∈ codes, UnreadableCode code) := by
  induction codes with
  | nil => exact .ok (by simp)
  | cons code rest ih =>
      rw [selectResponse]
      refine ((ends_responseEntry responses code).widen ?_).bind ?_
      · rintro defect ⟨rfl, unreadable⟩
        exact ⟨rfl, code, List.mem_cons_self, unreadable⟩
      · intro entry held
        split
        · rename_i present
          refine .ok ?_
          intro other same
          obtain rfl := Option.some.inj same
          rcases held with rfl | held
          · simp [Value.isTruthy] at present
          · exact held
        · refine ih.widen ?_
          rintro defect ⟨rfl, other, member, unreadable⟩
          exact ⟨rfl, other, List.mem_cons_of_mem _ member, unreadable⟩

end Operation

end ApiBinding

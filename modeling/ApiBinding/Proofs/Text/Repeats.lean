import Mathlib.Data.List.Induction
import Mathlib.Data.List.Nodup

/-! Lists without repeats: of equal items the first is kept, in its place. -/

namespace ApiBinding

variable {α : Type} [DecidableEq α]

/-- An item at the end is kept if it is new. -/
theorem eraseDups_concat (items : List α) (item : α) :
    (items ++ [item]).eraseDups =
      if item ∈ items then items.eraseDups else items.eraseDups ++ [item] := by
  rw [List.eraseDups_append, List.removeAll]
  by_cases known : item ∈ items <;> simp [known, List.eraseDups_cons]

/-- Items that are there already change nothing. -/
theorem eraseDups_append_of_subset {items more : List α} (known : more ⊆ items) :
    (items ++ more).eraseDups = items.eraseDups := by
  have none : more.removeAll items = [] := by
    rw [List.removeAll, List.filter_eq_nil_iff]
    intro item member
    simp [known member]
  rw [List.eraseDups_append, none, List.eraseDups_nil, List.append_nil]

/-- The items that are kept stand in the order of their first occurrences. -/
theorem pairwise_eraseDups (items : List α) :
    items.eraseDups.Pairwise fun a b => items.idxOf a < items.idxOf b := by
  induction items using List.reverseRecOn with
  | nil => simp
  | append_singleton items item ih =>
      have kept : items.eraseDups.Pairwise
          fun a b => (items ++ [item]).idxOf a < (items ++ [item]).idxOf b := by
        refine ih.imp_of_mem fun {a b} ha hb less => ?_
        rw [List.mem_eraseDups] at ha hb
        rwa [List.idxOf_append_of_mem ha, List.idxOf_append_of_mem hb]
      rw [eraseDups_concat]
      split
      · exact kept
      · rename_i new
        refine List.pairwise_append.mpr ⟨kept, List.pairwise_singleton _ _, ?_⟩
        intro a ha b hb
        obtain rfl := List.mem_singleton.mp hb
        rw [List.mem_eraseDups] at ha
        rw [List.idxOf_append_of_mem ha, List.idxOf_append_of_notMem new]
        exact Nat.lt_of_lt_of_le (List.idxOf_lt_length_of_mem ha) (Nat.le_add_right _ _)

theorem nodup_eraseDups (items : List α) : items.eraseDups.Nodup := by
  refine (pairwise_eraseDups items).imp fun less => ?_
  rintro rfl
  exact Nat.lt_irrefl _ less

end ApiBinding

import ApiBinding.Record.Catalog

/-! Computation rules for the catalog: what each operation does to the names, to the stored
records and to their order. -/

namespace ApiBinding.Catalog

/-- Every mentioned name in order of first mention. -/
def names (catalog : Catalog) : List String :=
  catalog.slots.map (·.1)

theorem mentions_iff (catalog : Catalog) (name : String) :
    catalog.mentions name = true ↔ name ∈ catalog.names := by
  simp [mentions, names]

@[simp] theorem names_empty : empty.names = [] := rfl

@[simp] theorem records_empty : empty.records = [] := rfl

/-- Reserving puts a new name at the end and tells whether the name was new. -/
theorem reserve_eq (catalog : Catalog) (name : String) :
    catalog.reserve name =
      (!catalog.mentions name,
        if catalog.mentions name then catalog else ⟨catalog.slots ++ [(name, none)]⟩) := by
  unfold reserve
  split <;> simp_all

/-- A reservation is no record. -/
@[simp] theorem records_reserve (catalog : Catalog) (name : String) :
    (catalog.reserve name).2.records = catalog.records := by
  rw [reserve_eq]
  split <;> simp [records]

theorem names_reserve (catalog : Catalog) (name : String) :
    (catalog.reserve name).2.names =
      if name ∈ catalog.names then catalog.names else catalog.names ++ [name] := by
  rw [reserve_eq]
  by_cases h : catalog.mentions name = true
  · simp [h, (mentions_iff catalog name).1 h]
  · have hm : name ∉ catalog.names := fun hm => h ((mentions_iff catalog name).2 hm)
    simp only [h, hm, if_false]
    simp [names]

private theorem names_fill (record : Record TypeExpr)
    (slots : List (String × Option (Record TypeExpr))) :
    (fill record slots).map (·.1) =
      if record.name ∈ slots.map (·.1) then slots.map (·.1)
      else slots.map (·.1) ++ [record.name] := by
  induction slots with
  | nil => simp [fill]
  | cons slot rest ih =>
    by_cases h : slot.1 = record.name
    · simp [fill, h]
    · have h' : record.name ≠ slot.1 := Ne.symm h
      simp only [fill, beq_iff_eq, h, if_false, List.map_cons, ih, List.mem_cons, h', false_or]
      split <;> simp

/-- Storing a record mentions its name. -/
theorem names_add (catalog : Catalog) (record : Record TypeExpr) :
    (catalog.add record).2.names =
      if record.name ∈ catalog.names then catalog.names
      else catalog.names ++ [record.name] := by
  unfold add
  split
  · rename_i h
    have hm : record.name ∈ catalog.names := by
      unfold find? at h
      cases hl : catalog.slots.lookup record.name with
      | none => simp [hl] at h
      | some slot =>
        rw [List.lookup_eq_some_iff] at hl
        obtain ⟨before, after, hs, _⟩ := hl
        simp [names, hs]
    simp [hm]
  · exact names_fill record catalog.slots

end ApiBinding.Catalog

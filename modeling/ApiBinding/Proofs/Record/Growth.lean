import ApiBinding.Record.Equations

/-! A catalog only grows: no operation moves, renames or replaces what is there. -/

namespace ApiBinding.Catalog

/-! ## Records under a name -/

theorem find?_eq_none_of_not_mem {catalog : Catalog} {name : String}
    (new : name ∉ catalog.names) : catalog.find? name = none := by
  have missing : catalog.slots.lookup name = none := by
    rw [List.lookup_eq_none_iff]
    intro slot member
    exact bne_iff_ne.mpr fun same => new (same ▸ List.mem_map_of_mem member)
  rw [find?, missing]
  rfl

/-- A reservation stores nothing. -/
@[simp] theorem find?_reserve (catalog : Catalog) (name other : String) :
    (catalog.reserve name).2.find? other = catalog.find? other := by
  rw [reserve_eq]
  by_cases taken : catalog.mentions name = true
  · simp [taken]
  · simp only [taken, if_false, Bool.false_eq_true]
    unfold find?
    rw [List.lookup_append]
    cases catalog.slots.lookup other with
    | some slot => rfl
    | none => by_cases h : other == name <;> simp [List.lookup_cons, h]

private theorem lookup_fill_self (record : Record TypeExpr)
    (slots : List (String × Option (Record TypeExpr))) :
    (fill record slots).lookup record.name = some (some record) := by
  induction slots with
  | nil => simp [fill]
  | cons slot rest ih =>
      obtain ⟨key, stored⟩ := slot
      by_cases h : key = record.name
      · simp [fill, h]
      · have h' : (record.name == key) = false := beq_false_of_ne (Ne.symm h)
        simpa [fill, h, List.lookup_cons, h'] using ih

private theorem lookup_fill_of_ne (record : Record TypeExpr) {name : String}
    (hne : name ≠ record.name) (slots : List (String × Option (Record TypeExpr))) :
    (fill record slots).lookup name = slots.lookup name := by
  have hne' : (name == record.name) = false := beq_false_of_ne hne
  induction slots with
  | nil => simp [fill, List.lookup_cons, hne']
  | cons slot rest ih =>
      obtain ⟨key, stored⟩ := slot
      by_cases h : key = record.name
      · simp [fill, h, List.lookup_cons, hne']
      · simp [fill, h, List.lookup_cons, ih]

theorem find?_add_self (catalog : Catalog) {record : Record TypeExpr}
    (free : catalog.find? record.name = none) :
    (catalog.add record).2.find? record.name = some record := by
  simp only [add, free, Option.isSome_none, Bool.false_eq_true, if_false]
  rw [find?, lookup_fill_self]
  rfl

theorem find?_add_of_ne (catalog : Catalog) {record : Record TypeExpr} {name : String}
    (hne : name ≠ record.name) : (catalog.add record).2.find? name = catalog.find? name := by
  unfold add
  split
  · rfl
  · rw [find?, lookup_fill_of_ne record hne, find?]

/-- A stored record stays, whatever is added. -/
theorem find?_add_of_some (catalog : Catalog) (record : Record TypeExpr) {name : String}
    {old : Record TypeExpr} (h : catalog.find? name = some old) :
    (catalog.add record).2.find? name = some old := by
  by_cases same : name = record.name
  · subst same
    simp [add, h]
  · rw [find?_add_of_ne catalog same, h]

/-- A record that is found after one was added is an old one or the new one. -/
theorem find?_add_cases {catalog : Catalog} {record stored : Record TypeExpr} {name : String}
    (h : (catalog.add record).2.find? name = some stored) :
    catalog.find? name = some stored ∨ (name = record.name ∧ stored = record) := by
  by_cases own : name = record.name
  · subst own
    cases taken : catalog.find? record.name with
    | none =>
        rw [find?_add_self catalog taken] at h
        exact .inr ⟨rfl, (Option.some.inj h).symm⟩
    | some old =>
        rw [find?_add_of_some catalog record taken] at h
        exact .inl h
  · rw [find?_add_of_ne catalog own] at h
    exact .inl h

/-! ## Growth -/

/-- The mentioned names stay in front and in order, and the stored records stay as they are. -/
structure Grows (before after : Catalog) : Prop where
  names : before.names <+: after.names
  records : ∀ {name record}, before.find? name = some record → after.find? name = some record

theorem Grows.refl (catalog : Catalog) : Grows catalog catalog :=
  ⟨List.prefix_refl _, id⟩

theorem Grows.trans {first second third : Catalog} (h : Grows first second)
    (h' : Grows second third) : Grows first third :=
  ⟨h.names.trans h'.names, fun found => h'.records (h.records found)⟩

theorem Grows.mem_names {before after : Catalog} (h : Grows before after) {name : String}
    (mentioned : name ∈ before.names) : name ∈ after.names :=
  h.names.subset mentioned

theorem grows_reserve (catalog : Catalog) (name : String) :
    Grows catalog (catalog.reserve name).2 := by
  refine ⟨?_, fun found => by simpa using found⟩
  rw [names_reserve]
  split
  · exact List.prefix_refl _
  · exact List.prefix_append _ _

theorem grows_add (catalog : Catalog) (record : Record TypeExpr) :
    Grows catalog (catalog.add record).2 := by
  refine ⟨?_, catalog.find?_add_of_some record⟩
  rw [names_add]
  split
  · exact List.prefix_refl _
  · exact List.prefix_append _ _

end ApiBinding.Catalog

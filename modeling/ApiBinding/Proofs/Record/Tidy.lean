import ApiBinding.Proofs.Record.Growth
import Mathlib.Data.List.Nodup

/-! Tidy catalogs: each name is mentioned once, each record stands under its own name, and what a
record mentions is mentioned in the catalog. -/

namespace ApiBinding.Catalog

structure Tidy (catalog : Catalog) : Prop where
  names : catalog.names.Nodup
  owned : ∀ {name record}, catalog.find? name = some record → record.name = name
  closed : ∀ {name record}, catalog.find? name = some record →
    ∀ field ∈ record.fields, field.type.references ⊆ catalog.names

/-- A name that is reserved and has no record yet. -/
def Pending (catalog : Catalog) (name : String) : Prop :=
  name ∈ catalog.names ∧ catalog.find? name = none

theorem tidy_empty : Tidy empty :=
  ⟨List.nodup_nil, by simp [find?, empty], by simp [find?, empty]⟩

theorem not_pending_empty (name : String) : ¬ empty.Pending name := by
  simp [Pending]

/-! ## Operations -/

theorem tidy_reserve {catalog : Catalog} (h : catalog.Tidy) (name : String) :
    (catalog.reserve name).2.Tidy where
  names := by
    rw [names_reserve]
    split
    · exact h.names
    · rename_i free
      exact List.nodup_append.mpr ⟨h.names, by simp, by
        rintro a member b hb rfl
        obtain rfl := List.mem_singleton.mp hb
        exact free member⟩
  owned found := h.owned (by simpa using found)
  closed found field member :=
    List.Subset.trans (h.closed (by simpa using found) field member)
      (catalog.grows_reserve name).names.subset

/-- A record whose types mention mentioned names may be stored. -/
theorem tidy_add {catalog : Catalog} (h : catalog.Tidy) {record : Record TypeExpr}
    (known : ∀ field ∈ record.fields, field.type.references ⊆ catalog.names) :
    (catalog.add record).2.Tidy := by
  have grown := (catalog.grows_add record).names.subset
  refine ⟨?_, ?_, ?_⟩
  · rw [names_add]
    split
    · exact h.names
    · rename_i free
      exact List.nodup_append.mpr ⟨h.names, by simp, by
        rintro a member b hb rfl
        obtain rfl := List.mem_singleton.mp hb
        exact free member⟩
  · intro name stored found
    rcases find?_add_cases found with found | ⟨rfl, rfl⟩
    · exact h.owned found
    · rfl
  · intro name stored found field member
    rcases find?_add_cases found with found | ⟨rfl, rfl⟩
    · exact List.Subset.trans (h.closed found field member) grown
    · exact List.Subset.trans (known field member) grown

theorem pending_reserve {catalog : Catalog} {name other : String}
    (h : (catalog.reserve name).2.Pending other) : catalog.Pending other ∨ other = name := by
  obtain ⟨mentioned, missing⟩ := h
  rw [find?_reserve] at missing
  rw [names_reserve] at mentioned
  split at mentioned
  · exact .inl ⟨mentioned, missing⟩
  · rcases List.mem_append.mp mentioned with mentioned | same
    · exact .inl ⟨mentioned, missing⟩
    · exact .inr (List.mem_singleton.mp same)

/-- Storing a record settles its name and leaves the other pending names as they are. -/
theorem pending_add {catalog : Catalog} {record : Record TypeExpr} {other : String}
    (h : (catalog.add record).2.Pending other) : catalog.Pending other ∧ other ≠ record.name := by
  obtain ⟨mentioned, missing⟩ := h
  have hne : other ≠ record.name := by
    rintro rfl
    cases taken : catalog.find? record.name with
    | none => simp [find?_add_self catalog taken] at missing
    | some old => simp [find?_add_of_some catalog record taken] at missing
  rw [find?_add_of_ne catalog hne] at missing
  rw [names_add] at mentioned
  split at mentioned
  · exact ⟨⟨mentioned, missing⟩, hne⟩
  · rcases List.mem_append.mp mentioned with mentioned | same
    · exact ⟨⟨mentioned, missing⟩, hne⟩
    · exact (hne (List.mem_singleton.mp same)).elim

/-! ## The list of records -/

/-- A stored record is found under the name of its slot. -/
theorem find?_of_mem_slots {catalog : Catalog} (nodup : catalog.names.Nodup) {name : String}
    {slot : Option (Record TypeExpr)} (member : (name, slot) ∈ catalog.slots) :
    catalog.find? name = slot := by
  obtain ⟨slots⟩ := catalog
  unfold names at nodup
  unfold find?
  induction slots with
  | nil => simp at member
  | cons first rest ih =>
      obtain ⟨key, stored⟩ := first
      simp only [List.map_cons, List.nodup_cons] at nodup
      rcases List.mem_cons.mp member with same | inside
      · obtain ⟨rfl, rfl⟩ := Prod.mk.inj same
        simp
      · have hne : name ≠ key := by
          rintro rfl
          exact nodup.1 (List.mem_map_of_mem inside)
        rw [List.lookup_cons, beq_false_of_ne hne]
        exact ih nodup.2 inside

theorem mem_slots_of_mem_records {catalog : Catalog} {record : Record TypeExpr}
    (member : record ∈ catalog.records) : ∃ name, (name, some record) ∈ catalog.slots := by
  obtain ⟨⟨name, slot⟩, inside, same⟩ := List.mem_filterMap.mp member
  exact ⟨name, by simpa [← same] using inside⟩

theorem mem_records_of_find? {catalog : Catalog} {name : String} {record : Record TypeExpr}
    (found : catalog.find? name = some record) : record ∈ catalog.records := by
  unfold find? at found
  cases looked : catalog.slots.lookup name with
  | none => simp [looked] at found
  | some slot =>
      obtain rfl : slot = some record := by simpa [looked] using found
      obtain ⟨before, after, split, _⟩ := List.lookup_eq_some_iff.mp looked
      rw [records, split]
      simp

/-- The records are listed in the order of the names. -/
theorem records_eq_filterMap {catalog : Catalog} (nodup : catalog.names.Nodup) :
    catalog.records = catalog.names.filterMap catalog.find? := by
  rw [records, names, List.filterMap_map]
  apply List.filterMap_congr
  intro slot member
  exact (find?_of_mem_slots nodup member).symm

/-- A catalog in which nothing was pending grows at the end of its list of records. -/
theorem Grows.records_eq {before after : Catalog} (h : before.Grows after) (tidy : after.Tidy)
    (settled : ∀ name, ¬ before.Pending name) :
    ∃ added, after.records = before.records ++ added ∧
      ∀ record ∈ added, ∃ name ∉ before.names, after.find? name = some record := by
  obtain ⟨new, split⟩ := h.names
  have nodup : (before.names ++ new).Nodup := split ▸ tidy.names
  have kept : before.names.filterMap after.find? = before.names.filterMap before.find? := by
    apply List.filterMap_congr
    intro name mentioned
    cases found : before.find? name with
    | none => exact (settled name ⟨mentioned, found⟩).elim
    | some record => exact h.records found
  refine ⟨new.filterMap after.find?, ?_, ?_⟩
  · rw [records_eq_filterMap tidy.names, ← split, List.filterMap_append, kept,
      records_eq_filterMap nodup.of_append_left]
  · intro record member
    obtain ⟨name, inside, found⟩ := List.mem_filterMap.mp member
    exact ⟨name, fun mentioned => List.disjoint_of_nodup_append nodup mentioned inside, found⟩

private theorem filterMap_sublist {α β : Type} {f g : α → Option β}
    (h : ∀ a b, f a = some b → g a = some b) (items : List α) :
    (items.filterMap f).Sublist (items.filterMap g) := by
  induction items with
  | nil => simp
  | cons a rest ih =>
      cases found : f a with
      | none =>
          rw [List.filterMap_cons_none found]
          exact ih.trans ((List.sublist_cons_self a rest).filterMap g)
      | some b =>
          rw [List.filterMap_cons_some found, List.filterMap_cons_some (h a b found)]
          exact ih.cons_cons b

/-- Records that are listed stay listed, in their order. -/
theorem Grows.records_sublist {before after : Catalog} (h : before.Grows after)
    (distinct : after.names.Nodup) : before.records.Sublist after.records := by
  rw [records_eq_filterMap (h.names.sublist.nodup distinct), records_eq_filterMap distinct]
  exact (filterMap_sublist (fun _ _ => h.records) before.names).trans
    (h.names.sublist.filterMap _)

namespace Tidy

variable {catalog : Catalog}

/-- The records are listed under their own names, each name once. -/
theorem map_name_records (h : catalog.Tidy) :
    List.Sublist (catalog.records.map (·.name)) catalog.names := by
  have own : ∀ slot ∈ catalog.slots, ∀ record, slot.2 = some record → record.name = slot.1 := by
    intro slot member record stored
    obtain ⟨name, slot⟩ := slot
    exact h.owned ((find?_of_mem_slots h.names member).trans stored)
  unfold Catalog.records Catalog.names
  revert own
  generalize catalog.slots = slots
  intro own
  induction slots with
  | nil => simp
  | cons slot rest ih =>
      have ih := ih fun other member => own other (by simp [member])
      obtain ⟨name, stored⟩ := slot
      cases stored with
      | none => simpa using ih.cons name
      | some record =>
          have same : record.name = name := own _ List.mem_cons_self record rfl
          simpa [same] using ih.cons_cons name

theorem nodup_records (h : catalog.Tidy) : (catalog.records.map (·.name)).Nodup :=
  h.map_name_records.nodup h.names

/-- Where nothing is pending, a mentioned name is the name of a stored record. -/
theorem exists_record (h : catalog.Tidy) (settled : ∀ name, ¬ catalog.Pending name)
    {name : String} (mentioned : name ∈ catalog.names) :
    ∃ record ∈ catalog.records, record.name = name := by
  cases found : catalog.find? name with
  | none => exact (settled name ⟨mentioned, found⟩).elim
  | some record => exact ⟨record, mem_records_of_find? found, h.owned found⟩

/-- Where nothing is pending, every slot is filled. -/
theorem isSome_slot (h : catalog.Tidy) (settled : ∀ name, ¬ catalog.Pending name)
    {slot : String × Option (Record TypeExpr)} (member : slot ∈ catalog.slots) :
    slot.2.isSome := by
  obtain ⟨name, stored⟩ := slot
  have found := find?_of_mem_slots h.names member
  cases stored with
  | none => exact (settled name ⟨List.mem_map_of_mem member, found⟩).elim
  | some record => rfl

theorem references_subset (h : catalog.Tidy) {record : Record TypeExpr}
    (member : record ∈ catalog.records) {field : Field TypeExpr} (hfield : field ∈ record.fields) :
    field.type.references ⊆ catalog.names := by
  obtain ⟨name, inside⟩ := mem_slots_of_mem_records member
  exact h.closed (find?_of_mem_slots h.names inside) field hfield

end Tidy

end ApiBinding.Catalog

import ApiBinding.Value.Equations
import Mathlib.Data.List.Count
import Mathlib.Logic.Relation
import Mathlib.Tactic.Ring

/-! The parts of a value: they are smaller than it and hold no other texts. A walk that meets
each text at most once between descents into parts is bounded. -/

namespace ApiBinding

namespace Mapping

theorem mem_of_get? {m : Mapping} {key : Key} {value : Value} (h : m.get? key = some value) :
    ∃ own, (own, value) ∈ m := by
  induction m with
  | nil => simp [get?] at h
  | cons entry rest ih =>
      obtain ⟨own, stored⟩ := entry
      simp only [get?] at h
      split at h
      · obtain rfl := Option.some.inj h
        exact ⟨own, by simp⟩
      · obtain ⟨found, member⟩ := ih h
        exact ⟨found, by simp [member]⟩

theorem mem_of_find? {m : Mapping} {name : String} {value : Value}
    (h : m.find? name = some value) : ∃ key, (key, value) ∈ m :=
  mem_of_get? h

theorem find?_eq_none {m : Mapping} {name : String} (absent : m.has name = false) :
    m.find? name = none := by
  simpa [has] using absent

theorem field_eq_null {m : Mapping} {name : String} (absent : m.has name = false) :
    m.field name = .null := by
  rw [field, find?_eq_none absent]
  rfl

theorem find?_of_field {m : Mapping} {name : String} {value : Value} (h : m.field name = value)
    (present : value ≠ .null) : m.find? name = some value := by
  unfold field at h
  cases found : m.find? name with
  | none => simp [found] at h; exact (present h.symm).elim
  | some stored => simpa [found] using h

/-- A field that is not null is an entry. -/
theorem mem_of_field {m : Mapping} {name : String} {value : Value} (h : m.field name = value)
    (present : value ≠ .null) : ∃ key, (key, value) ∈ m :=
  mem_of_find? (find?_of_field h present)

end Mapping

namespace Value

theorem eq_object_of_object? {value : Value} {entries : Mapping}
    (h : value.object? = some entries) : value = .object entries := by
  cases value <;> simp_all [Value.object?]

/-! ## Sizes and texts -/

mutual

/-- The texts that occur in a value as values. -/
def texts : Value → List String
  | .text content => [content]
  | .list items => listTexts items
  | .object entries => mappingTexts entries
  | _ => []

def listTexts : List Value → List String
  | [] => []
  | item :: rest => texts item ++ listTexts rest

def mappingTexts : List (Key × Value) → List String
  | [] => []
  | (_, value) :: rest => texts value ++ mappingTexts rest

end

theorem size_pos (value : Value) : 0 < value.size := by
  cases value <;> simp [size]

theorem size_le_listSize {item : Value} {items : List Value} (h : item ∈ items) :
    item.size ≤ listSize items := by
  induction items with
  | nil => simp at h
  | cons first rest ih =>
      rw [listSize]
      rcases List.mem_cons.mp h with rfl | h
      · omega
      · have := ih h
        omega

theorem size_le_mappingSize {entry : Key × Value} {m : Mapping} (h : entry ∈ m) :
    entry.2.size ≤ mappingSize m := by
  induction m with
  | nil => simp at h
  | cons first rest ih =>
      rw [mappingSize]
      rcases List.mem_cons.mp h with rfl | h
      · omega
      · have := ih h
        omega

theorem length_le_size (items : List Value) : items.length ≤ (Value.list items).size := by
  have each : items.length ≤ listSize items := by
    induction items with
    | nil => simp
    | cons item rest ih =>
        have := item.size_pos
        simp only [List.length_cons, listSize]
        omega
  simp only [size]
  omega

theorem texts_subset_listTexts {item : Value} {items : List Value} (h : item ∈ items) :
    item.texts ⊆ listTexts items := by
  induction items with
  | nil => simp at h
  | cons first rest ih =>
      rw [listTexts]
      rcases List.mem_cons.mp h with rfl | h
      · exact List.subset_append_left _ _
      · exact List.subset_append_of_subset_right _ (ih h)

theorem texts_subset_mappingTexts {entry : Key × Value} {m : Mapping} (h : entry ∈ m) :
    entry.2.texts ⊆ mappingTexts m := by
  induction m with
  | nil => simp at h
  | cons first rest ih =>
      rw [mappingTexts]
      rcases List.mem_cons.mp h with rfl | h
      · exact List.subset_append_left _ _
      · exact List.subset_append_of_subset_right _ (ih h)

mutual

/-- A value has at most as many texts as nodes. -/
theorem length_texts_le : ∀ value : Value, value.texts.length ≤ value.size
  | .null | .bool _ | .int _ | .float _ | .date _ => by simp [texts]
  | .text content => by simp [texts, size]
  | .list items => by
      have := length_listTexts_le items
      simp only [texts, size]
      omega
  | .object entries => by
      have := length_mappingTexts_le entries
      simp only [texts, size]
      omega

theorem length_listTexts_le : ∀ items : List Value, (listTexts items).length ≤ listSize items
  | [] => by simp [listTexts]
  | item :: rest => by
      have := length_texts_le item
      have := length_listTexts_le rest
      simp only [listTexts, listSize, List.length_append]
      omega

theorem length_mappingTexts_le :
    ∀ m : List (Key × Value), (mappingTexts m).length ≤ mappingSize m
  | [] => by simp [mappingTexts]
  | (_, value) :: rest => by
      have := length_texts_le value
      have := length_mappingTexts_le rest
      simp only [mappingTexts, mappingSize, List.length_append]
      omega

end

/-! ## Parts within bounds -/

/-- A value whose texts are in a pool and whose size is below a limit. -/
structure Within (pool : List String) (limit : Nat) (value : Value) : Prop where
  texts : value.texts ⊆ pool
  size : value.size < limit

variable {pool : List String} {limit : Nat}

theorem Within.null {value : Value} (h : value.Within pool limit) :
    Value.null.Within pool limit := by
  have := value.size_pos
  refine ⟨by simp [Value.texts], ?_⟩
  have := h.size
  simp only [Value.size]
  omega

theorem Within.item {items : List Value} (h : (Value.list items).Within pool limit)
    {item : Value} (member : item ∈ items) : item.Within pool limit := by
  refine ⟨fun _ found => h.texts (texts_subset_listTexts member found), ?_⟩
  have := size_le_listSize member
  have := h.size
  simp only [Value.size] at this
  omega

theorem Within.entry {m : Mapping} (h : (Value.object m).Within pool limit)
    {entry : Key × Value} (member : entry ∈ m) : entry.2.Within pool limit := by
  refine ⟨fun _ found => h.texts (texts_subset_mappingTexts member found), ?_⟩
  have := size_le_mappingSize member
  have := h.size
  simp only [Value.size] at this
  omega

theorem Within.field {m : Mapping} (h : (Value.object m).Within pool limit) (name : String) :
    (m.field name).Within pool limit := by
  by_cases missing : m.field name = .null
  · rw [missing]
    exact h.null
  · obtain ⟨key, member⟩ := Mapping.mem_of_field rfl missing
    exact h.entry member

theorem size_lt_of_mem_list {item : Value} {items : List Value} (h : item ∈ items) :
    item.size < (Value.list items).size := by
  have := size_le_listSize h
  simp only [size]
  omega

theorem size_lt_of_mem_object {entry : Key × Value} {m : Mapping} (h : entry ∈ m) :
    entry.2.size < (Value.object m).size := by
  have := size_le_mappingSize h
  simp only [size]
  omega

/-! ## Values in values -/

open Relation

/-- A value is written directly in another: as an item of a list or under a key of a mapping. -/
inductive Holds : Value → Value → Prop where
  | item {items item} : item ∈ items → Holds (.list items) item
  | entry {entries entry} : entry ∈ entries → Holds (.object entries) entry.2

theorem holds_find? {m : Mapping} {name : String} {value : Value} (h : m.find? name = some value) :
    Holds (.object m) value := by
  obtain ⟨key, member⟩ := Mapping.mem_of_find? h
  exact .entry member

/-- A field that is not null is written in its mapping. -/
theorem holds_field {m : Mapping} {name : String} {value : Value} (h : m.field name = value)
    (present : value ≠ .null) : Holds (.object m) value :=
  holds_find? (Mapping.find?_of_field h present)

theorem Holds.within {value part : Value} (h : Holds value part)
    (within : value.Within pool limit) : part.Within pool limit := by
  cases h with
  | item member => exact within.item member
  | entry member => exact within.entry member

theorem Holds.size_lt {value part : Value} (h : Holds value part) : part.size < value.size := by
  cases h with
  | item member => exact size_lt_of_mem_list member
  | entry member => exact size_lt_of_mem_object member

/-- What is written in a value, at any depth, is within its bounds and smaller. -/
theorem within_of_contains {value part : Value} (h : TransGen Holds value part)
    (within : value.Within pool limit) : part.Within pool limit ∧ part.size < value.size := by
  induction h with
  | single held => exact ⟨held.within within, held.size_lt⟩
  | tail _ held ih => exact ⟨held.within ih.1, held.size_lt.trans ih.2⟩

end Value

/-! ## Counting what has not been met -/

/-- How many members of a pool have not been met. -/
def unmet (pool : List String) (met : String → Bool) : Nat :=
  pool.countP fun ref => !met ref

theorem unmet_le_length (pool : List String) (met : String → Bool) :
    unmet pool met ≤ pool.length :=
  List.countP_le_length

theorem unmet_mono (pool : List String) {met met' : String → Bool}
    (h : ∀ ref, met ref = true → met' ref = true) : unmet pool met' ≤ unmet pool met := by
  apply List.countP_mono_left
  intro ref _ new
  cases known : met ref with
  | false => rfl
  | true => simp [h ref known] at new

/-- Meeting a new member leaves fewer. -/
theorem unmet_lt {pool : List String} {met met' : String → Bool} {ref : String}
    (h : ∀ ref, met ref = true → met' ref = true) (member : ref ∈ pool)
    (new : met ref = false) (known : met' ref = true) : unmet pool met' < unmet pool met := by
  obtain ⟨front, back, rfl⟩ := List.append_of_mem member
  have hfront := unmet_mono front h
  have hback := unmet_mono back h
  simp only [unmet, List.countP_append, List.countP_cons] at *
  simp only [new, known]
  simp
  omega

/-- Between two members a walk can use the whole limit. -/
theorem budget_lt {limit size before after : Nat} (h : after < before) (fits : size < limit) :
    after * limit + size < before * limit := by
  calc
    after * limit + size < after * limit + limit := by omega
    _ = (after + 1) * limit := by ring
    _ ≤ before * limit := Nat.mul_le_mul_right limit h

end ApiBinding

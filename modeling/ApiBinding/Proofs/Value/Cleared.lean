import ApiBinding.Proofs.Value.Moved

/-! Values with their parameter lists cleared. Mappings in mappings are cleared too, items of
lists are not. Under any key but that of parameters, reading a cleared mapping is clearing what
is read. -/

namespace ApiBinding

namespace Value

mutual

/-- What stands under a key, with the parameter lists in it cleared. -/
def clearedUnder (key : Key) : Value → Value
  | .list items => .list (if key == .text "parameters" then [] else items)
  | .object entries => .object (clearedEntries entries)
  | .null => .null
  | .bool flag => .bool flag
  | .int number => .int number
  | .float number => .float number
  | .date day => .date day
  | .text content => .text content

def clearedEntries : List (Key × Value) → List (Key × Value)
  | [] => []
  | (key, value) :: rest => (key, clearedUnder key value) :: clearedEntries rest

end

/-- A value with the parameter lists in it cleared. -/
def cleared (value : Value) : Value :=
  value.mapObject clearedEntries

@[simp] theorem cleared_object (entries : Mapping) :
    cleared (.object entries) = .object (clearedEntries entries) := rfl

theorem clearedUnder_object (key : Key) (entries : Mapping) :
    clearedUnder key (.object entries) = .object (clearedEntries entries) := by
  rw [clearedUnder]

theorem clearedUnder_of_ne {key : Key} (other : key ≠ .text "parameters") (value : Value) :
    clearedUnder key value = value.cleared := by
  cases value <;> simp [clearedUnder, cleared, other]

/-- All lists under the key of parameters are cleared to one. -/
theorem clearedUnder_list (items : List Value) :
    clearedUnder (.text "parameters") (.list items) = .list [] := by
  simp [clearedUnder]

theorem clearedEntries_eq_map (m : Mapping) :
    clearedEntries m = m.map fun entry => (entry.1, clearedUnder entry.1 entry.2) := by
  induction m with
  | nil => rfl
  | cons entry rest ih => simp [clearedEntries, ih]

mutual

theorem clearedUnder_clearedUnder (key : Key) :
    ∀ value : Value, clearedUnder key (clearedUnder key value) = clearedUnder key value
  | .list items => by cases own : key == .text "parameters" <;> simp [clearedUnder, own]
  | .object entries => by simp [clearedUnder, clearedEntries_clearedEntries entries]
  | .text _ | .null | .bool _ | .int _ | .float _ | .date _ => by simp [clearedUnder]

/-- There is nothing to clear a second time. -/
theorem clearedEntries_clearedEntries :
    ∀ m : List (Key × Value), clearedEntries (clearedEntries m) = clearedEntries m
  | [] => rfl
  | (key, value) :: rest => by
      simp [clearedEntries, clearedUnder_clearedUnder key value, clearedEntries_clearedEntries rest]

end

/-! ## Kinds -/

@[simp] theorem object?_cleared (value : Value) :
    value.cleared.object? = value.object?.map clearedEntries :=
  object?_mapObject clearedEntries value

@[simp] theorem text?_cleared (value : Value) : value.cleared.text? = value.text? := by
  cases value <;> rfl

/-- Under any key, a value is a mapping after clearing exactly if it was one before. -/
theorem object?_clearedUnder (key : Key) (value : Value) :
    (clearedUnder key value).object? = value.object?.map clearedEntries := by
  cases value <;> simp [clearedUnder, object?]

/-! ## Sizes -/

mutual

theorem size_clearedUnder_le (key : Key) :
    ∀ value : Value, (clearedUnder key value).size ≤ value.size
  | .list items => by
      simp only [clearedUnder, size]
      split <;> simp [listSize]
  | .object entries => by
      have := mappingSize_clearedEntries_le entries
      simp only [clearedUnder, size]
      omega
  | .text _ | .null | .bool _ | .int _ | .float _ | .date _ => by simp [clearedUnder, size]

theorem mappingSize_clearedEntries_le :
    ∀ m : List (Key × Value), mappingSize (clearedEntries m) ≤ mappingSize m
  | [] => le_rfl
  | (key, value) :: rest => by
      have := size_clearedUnder_le key value
      have := mappingSize_clearedEntries_le rest
      simp only [clearedEntries, mappingSize]
      omega

end

theorem size_cleared_le (value : Value) : value.cleared.size ≤ value.size := by
  rw [← @clearedUnder_of_ne .null (by simp) value]
  exact size_clearedUnder_le _ value

end Value

/-! ## Mappings -/

namespace Mapping

open Value

theorem find?_clearedEntries (m : Mapping) (name : String) :
    find? (clearedEntries m) name = (m.find? name).map (clearedUnder (.text name)) := by
  induction m with
  | nil => rfl
  | cons entry rest ih =>
      obtain ⟨key, value⟩ := entry
      by_cases same : key.same (.text name) = true
      · obtain rfl := eq_text_of_same same
        simp [clearedEntries, find?_cons]
      · simp [clearedEntries, find?_cons, same, ih]

theorem find?_cleared (m : Mapping) (name : String) (other : name ≠ "parameters") :
    find? (clearedEntries m) name = (m.find? name).map Value.cleared := by
  have apart : Key.text name ≠ .text "parameters" := by simpa using other
  rw [find?_clearedEntries]
  cases m.find? name with
  | none => rfl
  | some value => exact congrArg some (clearedUnder_of_ne apart value)

theorem field_cleared (m : Mapping) (name : String) (other : name ≠ "parameters") :
    field (clearedEntries m) name = (m.field name).cleared := by
  cases found : m.find? name <;> simp [field, find?_cleared m name other, found, Value.cleared]

theorem keys_clearedEntries (m : Mapping) : keys (clearedEntries m) = m.keys := by
  simp [keys, clearedEntries_eq_map]

@[simp] theorem has_clearedEntries (m : Mapping) (name : String) :
    has (clearedEntries m) name = m.has name := by
  simp [has, find?_clearedEntries]

theorem isSome_get?_clearedEntries (m : Mapping) (key : Key) :
    (get? (clearedEntries m) key).isSome = (m.get? key).isSome := by
  induction m with
  | nil => rfl
  | cons entry rest ih =>
      by_cases same : entry.1.same key = true <;> simp [clearedEntries, get?, same, ih]

theorem clearedEntries_insert (m : Mapping) (name : String) (value : Value) :
    clearedEntries (m.insert (.text name) value) =
      insert (clearedEntries m) (.text name) (clearedUnder (.text name) value) := by
  induction m with
  | nil => simp [insert, clearedEntries]
  | cons entry rest ih =>
      obtain ⟨key, stored⟩ := entry
      by_cases same : key.same (.text name) = true
      · obtain rfl := eq_text_of_same same
        simp [insert, clearedEntries]
      · simp [insert, clearedEntries, same, ih]

/-- Replacing a value by one that is cleared to the same is not seen after clearing. -/
theorem clearedEntries_insert_of_find? {m : Mapping} {name : String} {value value' : Value}
    (found : m.find? name = some value)
    (same : clearedUnder (.text name) value' = clearedUnder (.text name) value) :
    clearedEntries (m.insert (.text name) value') = clearedEntries m := by
  induction m with
  | nil => simp at found
  | cons entry rest ih =>
      obtain ⟨key, stored⟩ := entry
      rw [find?_cons] at found
      split at found
      · rename_i own
        obtain rfl := eq_text_of_same own
        obtain rfl := Option.some.inj found
        simp [insert, clearedEntries, same]
      · rename_i apart
        simp [insert, clearedEntries, apart, ih found]

theorem clearedEntries_extend (m added : Mapping) :
    clearedEntries (m.extend added) = extend (clearedEntries m) (clearedEntries added) := by
  unfold extend
  induction added generalizing m with
  | nil => rfl
  | cons entry rest ih =>
      obtain ⟨key, value⟩ := entry
      have step : clearedEntries (m.insertNew key value) =
          insertNew (clearedEntries m) key (clearedUnder key value) := by
        unfold insertNew
        rw [isSome_get?_clearedEntries]
        split
        · rfl
        · simp [clearedEntries_eq_map]
      simp only [List.foldl_cons, clearedEntries, ih, step]

end Mapping

end ApiBinding

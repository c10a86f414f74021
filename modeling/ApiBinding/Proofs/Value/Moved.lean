import ApiBinding.Operation.Dialect
import ApiBinding.Operation.Upload
import ApiBinding.Proofs.Value.Parts
import ApiBinding.Reference.Equations

/-! References moved from the root under which one dialect keeps its definitions to that of the
other. The move reaches every schema inside a schema, and reading a moved mapping is moving what
is read. -/

namespace ApiBinding

/-! ## References -/

namespace Pointer

/-- The reference to the same definition in the other dialect. Both roots are exchanged, so that
different references stay different; references elsewhere stay. -/
def moveRef (ref : String) : String :=
  match Text.dropStart? Dialect.swagger2.root.toList ref.toList with
  | some key => Dialect.openApi3.root ++ String.ofList key
  | none =>
    match Text.dropStart? Dialect.openApi3.root.toList ref.toList with
    | some key => Dialect.swagger2.root ++ String.ofList key
    | none => ref

theorem dropStart?_root_append (root : String) (key : List Char) :
    Text.dropStart? root.toList (root ++ String.ofList key).toList = some key := by
  rw [Text.dropStart?_eq_some_iff]
  simp

/-- A text starts with one root at most. -/
theorem dropStart?_swagger2_openApi3 (key : List Char) :
    Text.dropStart? Dialect.swagger2.root.toList
      (Dialect.openApi3.root ++ String.ofList key).toList = none := by
  simp [Dialect.root, Text.dropStart?]

theorem moveRef_swagger2 (key : List Char) :
    moveRef (Dialect.swagger2.root ++ String.ofList key) =
      Dialect.openApi3.root ++ String.ofList key := by
  simp only [moveRef, dropStart?_root_append]

theorem moveRef_openApi3 (key : List Char) :
    moveRef (Dialect.openApi3.root ++ String.ofList key) =
      Dialect.swagger2.root ++ String.ofList key := by
  simp only [moveRef, dropStart?_root_append, dropStart?_swagger2_openApi3]

theorem eq_append_of_dropStart? {root ref : String} {key : List Char}
    (h : Text.dropStart? root.toList ref.toList = some key) : ref = root ++ String.ofList key := by
  have split := Text.dropStart?_eq_some_iff.mp h
  apply String.ext
  simpa using split

/-- Moving a reference back and forth changes nothing. -/
theorem moveRef_moveRef (ref : String) : moveRef (moveRef ref) = ref := by
  cases old : Text.dropStart? Dialect.swagger2.root.toList ref.toList with
  | some key =>
      rw [eq_append_of_dropStart? old, moveRef_swagger2, moveRef_openApi3]
  | none =>
      cases new : Text.dropStart? Dialect.openApi3.root.toList ref.toList with
      | some key => rw [eq_append_of_dropStart? new, moveRef_openApi3, moveRef_swagger2]
      | none => simp only [moveRef, old, new]

theorem moveRef_injective : Function.Injective moveRef :=
  Function.LeftInverse.injective moveRef_moveRef

@[simp] theorem moveRef_inj {ref other : String} : moveRef ref = moveRef other ↔ ref = other :=
  moveRef_injective.eq_iff

end Pointer

/-! ## Values -/

namespace Value

/-- Whether a list under a key holds plain values: those of an enumeration, or a list in the place
of the schema of a tuple position. -/
def holdsData (key : Key) : Bool :=
  key == .text "enum" || key == .text "schema"

mutual

/-- What stands under a key, with the references moved. A list inside a list holds no schemas. -/
def movedUnder (key : Key) : Value → Value
  | .text content => .text (if key == .text "$ref" then Pointer.moveRef content else content)
  | .list items => .list (if holdsData key then items else movedItems items)
  | .object entries => .object (movedEntries entries)
  | .null => .null
  | .bool flag => .bool flag
  | .int number => .int number
  | .float number => .float number
  | .date day => .date day

def movedItems : List Value → List Value
  | [] => []
  | .object entries :: rest => .object (movedEntries entries) :: movedItems rest
  | item :: rest => item :: movedItems rest

def movedEntries : List (Key × Value) → List (Key × Value)
  | [] => []
  | (key, value) :: rest => (key, movedUnder key value) :: movedEntries rest

end

/-- Applies a function to the entries of a mapping; any other value stays as it is. -/
@[simp] def mapObject (f : Mapping → Mapping) : Value → Value
  | .object entries => .object (f entries)
  | value => value

@[simp] theorem object?_mapObject (f : Mapping → Mapping) (value : Value) :
    (mapObject f value).object? = value.object?.map f := by
  cases value <;> rfl

/-- A schema with the references in it moved; a value that is no schema stays as it is. -/
def moved (value : Value) : Value :=
  value.mapObject movedEntries

@[simp] theorem moved_object (entries : Mapping) :
    moved (.object entries) = .object (movedEntries entries) := rfl

section

attribute [local simp] movedUnder

@[simp] theorem movedUnder_object (key : Key) (entries : Mapping) :
    movedUnder key (.object entries) = .object (movedEntries entries) := by
  rw [movedUnder]

@[simp] theorem movedUnder_null (key : Key) : movedUnder key .null = .null := by
  rw [movedUnder]

theorem movedUnder_text {key : Key} (other : key ≠ .text "$ref") (content : String) :
    movedUnder key (.text content) = .text content := by
  simp [other]

theorem movedItems_eq_map (items : List Value) : movedItems items = items.map moved := by
  induction items with
  | nil => rfl
  | cons item rest ih => cases item <;> simp [movedItems, moved, mapObject, ih]

theorem movedEntries_eq_map (m : Mapping) :
    movedEntries m = m.map fun entry => (entry.1, movedUnder entry.1 entry.2) := by
  induction m with
  | nil => rfl
  | cons entry rest ih => simp [movedEntries, ih]

theorem movedUnder_list {key : Key} (schemas : holdsData key = false) (items : List Value) :
    movedUnder key (.list items) = .list (items.map moved) := by
  simp [schemas, movedItems_eq_map]

theorem movedUnder_data {key : Key} (data : holdsData key = true) (items : List Value) :
    movedUnder key (.list items) = .list items := by
  simp [data]

end

/-! ## Kinds -/

@[simp] theorem object?_moved (value : Value) :
    value.moved.object? = value.object?.map movedEntries :=
  object?_mapObject movedEntries value

theorem text?_movedUnder {key : Key} (other : key ≠ .text "$ref") (value : Value) :
    (movedUnder key value).text? = value.text? := by
  cases value <;> simp [movedUnder, text?, other]

@[simp] theorem text?_moved (value : Value) : value.moved.text? = value.text? := by
  cases value <;> rfl

theorem isTruthy_movedUnder {key : Key} (other : key ≠ .text "$ref") (value : Value) :
    (movedUnder key value).isTruthy = value.isTruthy := by
  cases value with
  | text content => rw [movedUnder_text other]
  | list items =>
      cases data : holdsData key with
      | true => rw [movedUnder_data data]
      | false => cases items <;> simp [movedUnder_list data, isTruthy]
  | object entries => cases entries <;> simp [movedEntries, isTruthy]
  | _ => simp [movedUnder, isTruthy]

/-! ## Sizes -/

mutual

theorem size_movedUnder (key : Key) : ∀ value : Value, (movedUnder key value).size = value.size
  | .list items => by
      have := listSize_movedItems items
      cases data : holdsData key <;> simp [movedUnder, data, size, this]
  | .object entries => by simp [size, mappingSize_movedEntries entries]
  | .text _ => by simp [movedUnder, size]
  | .null | .bool _ | .int _ | .float _ | .date _ => by simp [movedUnder, size]

theorem listSize_movedItems : ∀ items : List Value, listSize (movedItems items) = listSize items
  | [] => rfl
  | .object entries :: rest => by
      simp [movedItems, listSize, size, mappingSize_movedEntries entries, listSize_movedItems rest]
  | .text _ :: rest | .list _ :: rest | .null :: rest | .bool _ :: rest | .int _ :: rest
  | .float _ :: rest | .date _ :: rest => by
      simp [movedItems, listSize, listSize_movedItems rest]

theorem mappingSize_movedEntries :
    ∀ m : List (Key × Value), mappingSize (movedEntries m) = mappingSize m
  | [] => rfl
  | (key, value) :: rest => by
      simp [movedEntries, mappingSize, size_movedUnder key value, mappingSize_movedEntries rest]

end

@[simp] theorem size_moved (value : Value) : value.moved.size = value.size := by
  cases value with
  | object entries => simp [size, mappingSize_movedEntries]
  | _ => rfl

end Value

/-! ## Mappings -/

namespace Mapping

open Value

theorem eq_text_of_same {key : Key} {name : String} (h : key.same (.text name) = true) :
    key = .text name := by
  cases key with
  | text own => simpa using h
  | float number => cases hn : number.toInt? <;> simp_all [Key.same, Key.canonical]
  | _ => simp_all [Key.same, Key.canonical]

theorem find?_movedEntries (m : Mapping) (name : String) :
    find? (movedEntries m) name = (m.find? name).map (movedUnder (.text name)) := by
  induction m with
  | nil => rfl
  | cons entry rest ih =>
      obtain ⟨key, value⟩ := entry
      by_cases same : key.same (.text name) = true
      · obtain rfl := eq_text_of_same same
        simp [movedEntries, find?_cons]
      · simp [movedEntries, find?_cons, same, ih]

@[simp] theorem has_movedEntries (m : Mapping) (name : String) :
    has (movedEntries m) name = m.has name := by
  simp [has, find?_movedEntries]

theorem field_movedEntries (m : Mapping) (name : String) :
    field (movedEntries m) name = movedUnder (.text name) (m.field name) := by
  cases found : m.find? name <;> simp [field, find?_movedEntries, found]

theorem isSome_get?_movedEntries (m : Mapping) (key : Key) :
    (get? (movedEntries m) key).isSome = (m.get? key).isSome := by
  induction m with
  | nil => rfl
  | cons entry rest ih =>
      by_cases same : entry.1.same key = true <;> simp [movedEntries, get?, same, ih]

theorem movedEntries_insert (m : Mapping) (name : String) (value : Value) :
    movedEntries (m.insert (.text name) value) =
      insert (movedEntries m) (.text name) (movedUnder (.text name) value) := by
  induction m with
  | nil => simp [insert, movedEntries]
  | cons entry rest ih =>
      obtain ⟨key, stored⟩ := entry
      by_cases same : key.same (.text name) = true
      · obtain rfl := eq_text_of_same same
        simp [insert, movedEntries]
      · simp [insert, movedEntries, same, ih]

theorem movedEntries_append (m added : Mapping) :
    movedEntries (m ++ added) = movedEntries m ++ movedEntries added := by
  simp [movedEntries_eq_map]

theorem movedEntries_extend (m added : Mapping) :
    movedEntries (m.extend added) = extend (movedEntries m) (movedEntries added) := by
  unfold extend
  induction added generalizing m with
  | nil => rfl
  | cons entry rest ih =>
      obtain ⟨key, value⟩ := entry
      have step : movedEntries (m.insertNew key value) =
          insertNew (movedEntries m) key (movedUnder key value) := by
        unfold insertNew
        rw [isSome_get?_movedEntries]
        split
        · rfl
        · simp [movedEntries_append, movedEntries]
      simp only [List.foldl_cons, movedEntries, ih, step]

/-- Applies a function to the value of every entry. -/
def mapValues (f : Value → Value) (m : Mapping) : Mapping :=
  m.map fun entry => (entry.1, f entry.2)

theorem get?_mapValues (f : Value → Value) (m : Mapping) (key : Key) :
    get? (m.mapValues f) key = (m.get? key).map f := by
  unfold mapValues
  induction m with
  | nil => rfl
  | cons entry rest ih =>
      by_cases same : entry.1.same key = true <;> simp [get?, same, ih]

theorem find?_mapValues (f : Value → Value) (m : Mapping) (name : String) :
    find? (m.mapValues f) name = (m.find? name).map f :=
  get?_mapValues f m (.text name)

theorem field_mapValues {f : Value → Value} (null : f .null = .null) (m : Mapping)
    (name : String) : field (m.mapValues f) name = f (m.field name) := by
  cases found : m.find? name <;> simp [field, find?_mapValues, found, null]

theorem isEmpty_movedEntries (m : Mapping) : (movedEntries m).isEmpty = m.isEmpty := by
  cases m <;> rfl

end Mapping

end ApiBinding

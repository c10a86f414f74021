import ApiBinding.Proofs.Schema.Moved
import ApiBinding.Proofs.Value.Cleared

/-! Schemas with their parameter lists cleared: no reading of a schema looks into one, so they
have the same shape, the same inherited properties and the same files as before. -/

namespace ApiBinding

open Value

section Results

variable {α β γ : Type} {f : α → β} {result result' : Except Failure α}

/-- Two computations that differ in what `f` drops at most: both fail alike or both succeed. -/
theorem map_eq_map_cases (same : result.map f = result'.map f) :
    (∃ failure, result = .error failure ∧ result' = .error failure) ∨
      ∃ value value', result = .ok value ∧ result' = .ok value' ∧ f value = f value' := by
  cases result with
  | error failure =>
      cases result' with
      | error failure' =>
          obtain rfl : failure = failure' := by simpa [Except.map] using same
          exact .inl ⟨failure, rfl, rfl⟩
      | ok value' => simp [Except.map] at same
  | ok value =>
      cases result' with
      | error failure' => simp [Except.map] at same
      | ok value' => exact .inr ⟨value, value', rfl, rfl, by simpa [Except.map] using same⟩

/-- What comes after a computation depends on no more of its result than `f` keeps. -/
theorem bind_of_map {next next' : α → Except Failure γ} (same : result.map f = result'.map f)
    (h : ∀ value value', f value = f value' → next value = next' value') :
    result >>= next = result' >>= next' := by
  rcases map_eq_map_cases same with ⟨failure, rfl, rfl⟩ | ⟨value, value', rfl, rfl, alike⟩
  · rfl
  · exact h value value' alike

end Results

namespace Schema

variable {table : Table}

/-! ## Reading a schema -/

theorem typeWord?_cleared (schema : Mapping) :
    typeWord? (clearedEntries schema) = typeWord? schema := by
  unfold typeWord?
  rw [Mapping.field_cleared schema _ (by decide)]
  cases schema.field "type" <;> rfl

theorem text?_field_cleared (schema : Mapping) (name : String) (other : name ≠ "parameters") :
    (Mapping.field (clearedEntries schema) name).text? = (schema.field name).text? := by
  rw [Mapping.field_cleared schema name other, text?_cleared]

theorem format?_cleared (schema : Mapping) :
    format? (.object (clearedEntries schema)) = format? (.object schema) := by
  simp [format?, object?, text?_field_cleared]

theorem isTyped_clearedUnder (key : Key) (node : Value) :
    isTyped (clearedUnder key node) = isTyped node := by
  cases node <;> simp [isTyped, clearedUnder, Mapping.has_clearedEntries, typeKeys]

theorem isTyped_cleared (schema : Mapping) :
    isTyped (.object (clearedEntries schema)) = isTyped (.object schema) := by
  rw [← isTyped_clearedUnder .null (.object schema), clearedUnder_object]

theorem description?_cleared (schema : Mapping) :
    description? (clearedEntries schema) = description? schema := by
  simp [description?, nonemptyText?, text?_field_cleared]

theorem ofValue_cleared (value : Value) :
    Requirement.ofValue value.cleared = Requirement.ofValue value := by
  cases value <;> rfl

theorem isRequired_cleared (name : Key) (property : Mapping) (parent : Requirement) :
    isRequired name (clearedEntries property) parent = isRequired name property parent := by
  unfold isRequired
  rw [Mapping.field_cleared property _ (by decide)]
  cases property.field "required" <;> rfl

/-! ## Shapes -/

/-- The shape with the parameter lists in it cleared. Members of compositions are items of lists
and stay as they are. -/
def Shape.cleared : Shape → Shape
  | .reference target => .reference target.cleared
  | .array items => .array items.cleared
  | .object properties requirement => .object (clearedEntries properties) requirement
  | .leaf type => .leaf type
  | .tuple elements => .tuple elements
  | .union members => .union members
  | .intersection members => .intersection members

theorem decisiveWord?_cleared (schema : Mapping) :
    decisiveWord? (clearedEntries schema) = decisiveWord? schema := by
  simp [decisiveWord?, typeWord?_cleared, format?_cleared, Mapping.has_clearedEntries]

theorem arrayShape_cleared (schema : Mapping) :
    arrayShape (clearedEntries schema) = (arrayShape schema).cleared := by
  have items : arrayShape [(.text "items", (schema.field "items").cleared)] =
      (arrayShape [(.text "items", schema.field "items")]).cleared := by
    simp only [arrayShape, Mapping.field, Mapping.find?_cons, Key.same_text, Mapping.find?_nil]
    cases (schema.find? "items").getD .null <;> rfl
  simp only [arrayShape]
  rw [Mapping.field_cleared schema "prefixItems" (by decide),
    Mapping.field_cleared schema "items" (by decide)]
  cases schema.field "prefixItems" with
  | list elements => rfl
  | _ => exact items

theorem objectShape_cleared (schema : Mapping) :
    objectShape (clearedEntries schema) = (objectShape schema).cleared := by
  unfold objectShape
  rw [Mapping.field_cleared schema "properties" (by decide),
    Mapping.field_cleared schema "required" (by decide), ofValue_cleared]
  cases schema.field "properties" with
  | object properties => cases properties <;> rfl
  | _ => rfl

theorem members?_cleared (value : Value) : members? value.cleared = members? value := by
  cases value <;> rfl

theorem plainShape_cleared (word : Option String) (schema : Mapping) :
    plainShape word (clearedEntries schema) = (plainShape word schema).cleared := by
  unfold plainShape
  rw [Mapping.has_clearedEntries, objectShape_cleared]
  split <;> rfl

theorem composedShape_cleared (word : Option String) (schema : Mapping) :
    composedShape word (clearedEntries schema) = (composedShape word schema).cleared := by
  simp only [composedShape_eq, plainShape_cleared]
  rw [Mapping.field_cleared schema "oneOf" (by decide),
    Mapping.field_cleared schema "anyOf" (by decide),
    Mapping.field_cleared schema "allOf" (by decide), members?_cleared,
    members?_cleared, members?_cleared]
  cases members? (schema.field "oneOf") with
  | some members => rfl
  | none =>
      cases members? (schema.field "anyOf") with
      | some members => rfl
      | none => cases members? (schema.field "allOf") <;> rfl

theorem enumShape_cleared (values : Value) :
    enumShape values.cleared = (enumShape values).map Shape.cleared := by
  cases values with
  | list items =>
      cases items with
      | nil => rfl
      | cons first rest =>
          change enumShape (.list (first :: rest)) = _
          rw [enumShape]
          cases TypeExpr.ofLiterals (first :: rest) <;> rfl
  | _ => rfl

theorem shape_cleared (schema : Mapping) :
    shape (clearedEntries schema) = (shape schema).map Shape.cleared := by
  unfold shape
  rw [Mapping.find?_cleared schema "$ref" (by decide),
    Mapping.find?_cleared schema "enum" (by decide)]
  simp only [decisiveWord?_cleared, Mapping.has_clearedEntries, arrayShape_cleared,
    composedShape_cleared]
  cases schema.find? "$ref" with
  | some target => rfl
  | none =>
      dsimp only [Option.map_none]
      cases (decisiveWord? schema).bind builtin? with
      | some type => rfl
      | none =>
          dsimp only
          split
          · rfl
          · split
            · cases schema.find? "enum" with
              | none => rfl
              | some values => exact enumShape_cleared values
            · rfl

/-! ## Inherited properties -/

def Flattened.cleared (flat : Flattened) : Flattened where
  properties := clearedEntries flat.properties
  requirement := flat.requirement

theorem parts_cleared (schema : Mapping) : parts (clearedEntries schema) = parts schema := by
  unfold parts
  rw [Mapping.field_cleared schema _ (by decide)]
  cases schema.field "allOf" <;> rfl

/-- The parts of a composition stand in a list, so what differs comes from the own properties. -/
theorem flattenWithin_cleared (depth : Nat) (seen : List String) (schema : Mapping) :
    (flattenWithin table depth seen (clearedEntries schema)).map (·.1.cleared) =
      (flattenWithin table depth seen schema).map (·.1.cleared) := by
  cases depth with
  | zero => rfl
  | succ depth =>
      simp only [flattenWithin, flattenStep, parts_cleared]
      rw [Mapping.field_cleared schema "properties" (by decide),
        Mapping.field_cleared schema "required" (by decide)]
      cases parts schema with
      | error failure => rfl
      | ok members =>
          dsimp only [bind, Except.bind]
          cases members.foldlM (gatherPart table (flattenWithin table depth)) ⟨[], [], seen⟩ with
          | error failure => rfl
          | ok gathered =>
              refine congrArg Except.ok (?_ : Flattened.mk _ _ = Flattened.mk _ _)
              congr 1
              · cases schema.field "properties" with
                | object own =>
                    simp [Value.cleared, mapObject, Mapping.clearedEntries_extend,
                      clearedEntries_clearedEntries]
                | _ => rfl
              · cases schema.field "required" <;> rfl

theorem depthBound_cleared_le (table : Table) (node : Value) :
    depthBound table node.cleared ≤ depthBound table node := by
  have smaller := size_cleared_le node
  have nodes : Value.mappingSize table.definitions + node.cleared.size + 2 ≤
      Value.mappingSize table.definitions + node.size + 2 := by omega
  exact Nat.mul_le_mul (Nat.mul_le_mul_left 3 nodes) nodes

theorem flatten_cleared (schema : Mapping) :
    (flatten table (clearedEntries schema)).map Flattened.cleared =
      (flatten table schema).map Flattened.cleared := by
  have enough := depthBound_cleared_le table (.object schema)
  rw [(flatten_settled table (clearedEntries schema) enough).same]
  have first : ∀ walked : Except Failure (Flattened × List String),
      (walked.map (·.1)).map Flattened.cleared = walked.map (·.1.cleared) := by
    intro walked
    cases walked <;> rfl
  rw [flatten, first, first, flattenWithin_cleared]

end Schema

end ApiBinding

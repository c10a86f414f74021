import ApiBinding.Proofs.Schema.Depth
import ApiBinding.Proofs.Value.Writable

/-! The schemas that a schema leads to without a reference are smaller parts of it. -/

namespace ApiBinding.Schema

open Relation Value

variable {pool : List String} {limit : Nat} {schema : Mapping}

/-- The schemas that a shape leads to. -/
def Shape.nodes : Shape → List Value
  | .reference _ => []
  | .leaf _ => []
  | .array items => [items]
  | .tuple elements => elements
  | .union members => members
  | .intersection members => members
  | .object properties _ => properties.map (·.2)

/-- A part of a node: within bounds and smaller. -/
def PartOf (pool : List String) (limit : Nat) (node part : Value) : Prop :=
  part.Within pool limit ∧ part.size < node.size

/-- The items of a list under a field are written in the schema. -/
theorem contains_field_item {name : String} {items : List Value}
    (found : schema.field name = .list items) {item : Value} (member : item ∈ items) :
    TransGen Holds (.object schema) item :=
  .tail (.single (holds_field found (by simp))) (.item member)

/-- The values of a mapping under a field are written in the schema. -/
theorem contains_field_value {name : String} {own : Mapping}
    (found : schema.field name = .object own) {part : Value} (member : part ∈ own.map (·.2)) :
    TransGen Holds (.object schema) part := by
  obtain ⟨inner, hinner, rfl⟩ := List.mem_map.mp member
  exact .tail (.single (holds_field found (by simp))) (.entry hinner)

theorem contains_elementSchema (item : Value) : ReflTransGen Holds item (elementSchema item) := by
  unfold elementSchema
  split
  · rename_i entries
    cases found : Mapping.find? entries "schema" with
    | none => exact .refl
    | some inner => exact .single (holds_find? found)
  · exact .refl

/-- Items that are left out are null. -/
theorem contains_arrayShape {part : Value} (member : part ∈ (arrayShape schema).nodes) :
    part = .null ∨ TransGen Holds (.object schema) part := by
  unfold arrayShape at member
  split at member
  · rename_i elements found
    exact .inr (contains_field_item found member)
  · split at member
    · rename_i elements found
      obtain ⟨item, hitem, rfl⟩ := List.mem_map.mp member
      exact .inr ((contains_field_item found hitem).trans_left (contains_elementSchema item))
    · obtain rfl := List.mem_singleton.mp member
      by_cases missing : schema.field "items" = .null
      · exact .inl missing
      · exact .inr (.single (holds_field rfl missing))

theorem contains_objectShape {part : Value} (member : part ∈ (objectShape schema).nodes) :
    TransGen Holds (.object schema) part := by
  unfold objectShape at member
  split at member
  · rename_i first rest found
    exact contains_field_value found member
  · simp [Shape.nodes] at member

theorem contains_composedShape {word : Option String} {part : Value}
    (member : part ∈ (composedShape word schema).nodes) :
    TransGen Holds (.object schema) part := by
  unfold composedShape at member
  split at member
  · rename_i first rest found
    exact contains_field_item found member
  · rename_i first rest found _
    exact contains_field_item found member
  · rename_i first rest found _ _
    exact contains_field_item found member
  · split at member
    · exact contains_objectShape member
    · split at member <;> simp [Shape.nodes] at member

/-- What the shape of an enumeration is: a union of literals, or the type of a text. -/
inductive EnumRule : Shape → Prop where
  | literals {texts} : texts ≠ [] → EnumRule (.leaf (.literals texts))
  | text : EnumRule (.leaf .string)

theorem enumRule_of_enumShape {values : Value} {found : Shape} (h : enumShape values = .ok found) :
    EnumRule found := by
  unfold enumShape at h
  split at h
  · obtain ⟨type, made, same⟩ := bind_eq_ok_iff.mp h
    obtain rfl := Except.ok.inj same
    obtain ⟨-, rfl⟩ := TypeExpr.ofLiterals_eq_ok_iff.mp made
    exact .literals (TypeExpr.literals_ne_nil (List.cons_ne_nil _ _))
  · obtain rfl := Except.ok.inj h
    exact .text

theorem EnumRule.nodes {found : Shape} (h : EnumRule found) : found.nodes = [] := by
  cases h <;> rfl

/-- What gives a schema its shape. -/
inductive ShapeRule (schema : Mapping) : Shape → Prop where
  | reference {target} : schema.find? "$ref" = some target →
      ShapeRule schema (.reference target)
  | builtin {word type} : builtin? word = some type → ShapeRule schema (.leaf type)
  | array : schema ≠ [] → ShapeRule schema (arrayShape schema)
  | enum {found} : EnumRule found → ShapeRule schema found
  | composed (word) : ShapeRule schema (composedShape word schema)

theorem shapeRule_of_shape {found : Shape} (h : shape schema = .ok found) :
    ShapeRule schema found := by
  unfold shape at h
  split at h
  · rename_i target present
    obtain rfl := Except.ok.inj h
    exact .reference present
  · dsimp only at h
    split at h
    · rename_i type word
      obtain rfl := Except.ok.inj h
      obtain ⟨word, _, built⟩ := Option.bind_eq_some_iff.mp word
      exact .builtin built
    · split at h
      · rename_i isArray
        obtain rfl := Except.ok.inj h
        refine .array ?_
        rintro rfl
        exact absurd isArray (by decide)
      · split at h
        · split at h
          · exact .enum (enumRule_of_enumShape h)
          · simp at h
        · obtain rfl := Except.ok.inj h
          exact .composed _

/-- The schemas that a schema leads to without a reference are written in it or left out. -/
theorem contains_shape {found : Shape} (h : shape schema = .ok found) {part : Value}
    (member : part ∈ found.nodes) :
    part = .null ∧ schema ≠ [] ∨ TransGen Holds (.object schema) part := by
  cases shapeRule_of_shape h with
  | reference _ => simp [Shape.nodes] at member
  | builtin _ => simp [Shape.nodes] at member
  | array nonempty => exact (contains_arrayShape member).imp_left fun missing => ⟨missing, nonempty⟩
  | enum rule => simp [rule.nodes] at member
  | composed word => exact .inr (contains_composedShape member)

/-- The schemas that a schema leads to without a reference are parts of it. -/
theorem partOf_shape (within : (Value.object schema).Within pool limit) {found : Shape}
    (h : shape schema = .ok found) {part : Value} (member : part ∈ found.nodes) :
    PartOf pool limit (.object schema) part := by
  rcases contains_shape h member with ⟨rfl, nonempty⟩ | written
  · refine ⟨within.null, ?_⟩
    obtain ⟨entry, rest, rfl⟩ := List.exists_cons_of_ne_nil nonempty
    have := entry.2.size_pos
    simp only [Value.size, Value.mappingSize]
    omega
  · exact within_of_contains written within

/-- Only the entry for references makes a reference. -/
theorem find?_of_shape {target : Value} (h : shape schema = .ok (.reference target)) :
    schema.find? "$ref" = some target := by
  generalize same : Shape.reference target = found at h
  cases shapeRule_of_shape h with
  | reference present =>
      obtain rfl := Shape.reference.inj same
      exact present
  | builtin _ => simp at same
  | array _ =>
      rw [arrayShape] at same
      repeat' split at same
      all_goals simp at same
  | enum rule => cases rule <;> simp at same
  | composed word =>
      simp only [composedShape, objectShape] at same
      repeat' split at same
      all_goals simp at same

/-- The properties of an object that is written in place are a mapping in the schema. -/
theorem holds_of_shape {properties : Mapping} {requirement : Requirement}
    (h : shape schema = .ok (.object properties requirement)) :
    Holds (.object schema) (.object properties) := by
  generalize same : Shape.object properties requirement = found at h
  cases shapeRule_of_shape h with
  | reference _ => simp at same
  | builtin _ => simp at same
  | array _ =>
      rw [arrayShape] at same
      repeat' split at same
      all_goals simp at same
  | enum rule => cases rule <;> simp at same
  | composed word =>
      simp only [composedShape] at same
      repeat' split at same
      all_goals try simp at same
      rename_i isObject
      rw [objectShape] at same
      split at same
      · rename_i declared
        obtain ⟨rfl, -⟩ := Shape.object.inj same
        exact holds_field declared (by simp)
      · simp at same

/-- The types that a schema can have without schemas inside. -/
inductive LeafRule : TypeExpr → Prop where
  | builtin {word type} : builtin? word = some type → LeafRule type
  | text : LeafRule .string
  | literals {texts} : texts ≠ [] → LeafRule (.literals texts)
  | object : LeafRule .object
  | copied (text) : LeafRule (.verbatim text)

theorem leafRule_of_shape {type : TypeExpr} (h : shape schema = .ok (.leaf type)) :
    LeafRule type := by
  generalize same : Shape.leaf type = found at h
  cases shapeRule_of_shape h with
  | reference _ => simp at same
  | builtin built =>
      obtain rfl := Shape.leaf.inj same
      exact .builtin built
  | array _ =>
      rw [arrayShape] at same
      repeat' split at same
      all_goals simp at same
  | enum rule =>
      cases rule with
      | literals nonempty =>
          obtain rfl := Shape.leaf.inj same
          exact .literals nonempty
      | text =>
          obtain rfl := Shape.leaf.inj same
          exact .text
  | composed word =>
      simp only [composedShape, objectShape] at same
      repeat' split at same
      all_goals first
        | obtain rfl := Shape.leaf.inj same
          first
            | exact .object
            | exact .copied _
        | simp at same

/-- A schema is a combination only if it has members. -/
theorem ne_nil_of_shape {members : List Value}
    (h : shape schema = .ok (.union members) ∨ shape schema = .ok (.intersection members)) :
    members ≠ [] := by
  obtain ⟨found, shaped, same⟩ : ∃ found, shape schema = .ok found ∧
      (found = .union members ∨ found = .intersection members) := by
    rcases h with h | h
    · exact ⟨_, h, .inl rfl⟩
    · exact ⟨_, h, .inr rfl⟩
  cases shapeRule_of_shape shaped with
  | reference _ => simp at same
  | builtin _ => simp at same
  | array _ =>
      rw [arrayShape] at same
      repeat' split at same
      all_goals simp at same
  | enum rule => cases rule <;> simp at same
  | composed word =>
      simp only [composedShape, objectShape] at same
      repeat' split at same
      all_goals
        rintro rfl
        simp at same

/-- Why a schema has no shape: an enumeration without values, or one of values of which one cannot
be written. -/
inductive ShapelessRule (schema : Mapping) : Defect → Prop where
  | unlisted : schema.has "$ref" = false → schema.has "enum" = false →
      decisiveWord? schema = some "enum" → ShapelessRule schema .enumWithoutValues
  | long {values} : schema.has "$ref" = false → schema.field "enum" = .list values →
      (∃ value ∈ values, value.HasLongInteger) → ShapelessRule schema .integerTooLong

theorem shapelessRule_of_shape {failure : Failure} (h : shape schema = .error failure) :
    ∃ defect, failure = .defect defect ∧ ShapelessRule schema defect := by
  unfold shape at h
  split at h
  · simp at h
  · rename_i inPlace
    have noReference : schema.has "$ref" = false := by simp [Mapping.has, inPlace]
    dsimp only at h
    split at h
    · simp at h
    · split at h
      · simp at h
      · split at h
        · rename_i word
          split at h
          · rename_i values listed
            unfold enumShape at h
            split at h
            · rename_i first rest
              cases made : TypeExpr.ofLiterals (first :: rest) with
              | ok type => simp [made, bind, Except.bind] at h
              | error cause =>
                  obtain rfl : cause = failure := by simpa [made, bind, Except.bind] using h
                  obtain ⟨rfl, long⟩ := TypeExpr.ofLiterals_eq_error_iff.mp made
                  exact ⟨_, rfl, .long noReference (by simp [Mapping.field, listed]) long⟩
            · simp at h
          · rename_i unlisted
            refine ⟨_, (Except.error.inj h).symm, .unlisted noReference ?_ (by simpa using word)⟩
            simp [Mapping.has, unlisted]
        · simp at h

theorem shape_reached (schema : Mapping) : shape schema ≠ .error (.defect .depthExhausted) := by
  intro failed
  obtain ⟨defect, same, rule⟩ := shapelessRule_of_shape failed
  obtain rfl := Failure.defect.inj same
  cases rule

end ApiBinding.Schema
